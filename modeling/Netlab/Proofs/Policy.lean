import Netlab.Compile.Plan
import Netlab.Proofs.Diagnostics

/-!
# The two policies

A trace knows no policy, so the two readings of it can be compared.  Under `skip` a plan always
gives the script `Plan.skipped`; under `abort` it gives the same script if nothing failed, and the
first failure otherwise.

* `Plan.script_skip`, `Plan.script_abort`   the two outcomes of a plan;
* `Plan.eq_skipped_of_script_eq_ok`         whatever the policy, a script that is made is that one;
* `abort_agrees_with_skip`                  the two outcomes compared, for every script that goes
                                            by the policy.
-/

namespace Netlab

open Shell (Command)

/-! ## traces -/

namespace Trace

theorem commands_cons (r : Report) (t : Trace) : commands (r :: t) = commands [r] ++ commands t :=
  commands_append [r] t

theorem errors_cons (r : Report) (t : Trace) : errors (r :: t) = errors [r] ++ errors t :=
  errors_append [r] t

theorem diagnostics_cons (r : Report) (t : Trace) :
    diagnostics (r :: t) = diagnostics [r] ++ diagnostics t :=
  diagnostics_append [r] t

theorem errors_flatten (ts : List Trace) : errors ts.flatten = (ts.map errors).flatten := by
  induction ts with
  | nil => rfl
  | cons t ts ih => rw [List.flatten_cons, errors_append, ih, List.map_cons, List.flatten_cons]

/-- the units left out are the failures, in order -/
theorem diagnostics_skipped (t : Trace) :
    t.diagnostics.filter (·.severity = .skipped) = t.errors.map .skipped := by
  induction t with
  | nil => rfl
  | cons r t ih =>
    rw [diagnostics_cons, errors_cons, List.filter_append, List.map_append, ih]
    cases r <;> rfl

theorem run_abort_of_errors_nil (t : Trace) (ds : Diagnostics) (h : t.errors = []) :
    run .abort t ds = run .skip t ds := by
  induction t generalizing ds with
  | nil => rfl
  | cons r t ih =>
    rw [errors_cons, List.append_eq_nil_iff] at h
    cases r with
    | emit cmds => simp only [run, ih ds h.2]
    | warn message => simp only [run, ih _ h.2]
    | fail e => exact absurd h.1 (List.cons_ne_nil e [])

theorem run_abort_of_errors_cons (t : Trace) (ds : Diagnostics) (e : CompileError)
    (es : List CompileError) (h : t.errors = e :: es) : (run .abort t ds).1 = .error e := by
  induction t generalizing ds with
  | nil => exact absurd h (List.cons_ne_nil e es).symm
  | cons r t ih =>
    rw [errors_cons] at h
    cases r with
    | emit cmds => simp only [run, ih ds h]; rfl
    | warn message => exact ih _ h
    | fail e' =>
      obtain ⟨rfl, _⟩ := List.cons.inj h
      rfl

/-- a phase that succeeds goes as under `skip`, whatever the policy -/
theorem run_skip_of_run_eq_ok (t : Trace) (policy : UnitPolicy) (ds ds' : Diagnostics)
    (cmds : List Command) (h : run policy t ds = (.ok cmds, ds')) :
    run .skip t ds = (.ok cmds, ds') := by
  cases policy with
  | skip => exact h
  | abort =>
    cases he : t.errors with
    | nil => rw [← run_abort_of_errors_nil t ds he, h]
    | cons e es =>
      have herr := run_abort_of_errors_cons t ds e es he
      rw [h] at herr
      cases herr

/-- a phase fails only under `abort`, with the first failure in it -/
theorem run_eq_error_iff (t : Trace) (policy : UnitPolicy) (ds : Diagnostics) (e : CompileError) :
    (run policy t ds).1 = .error e ↔ policy = .abort ∧ t.errors.head? = some e := by
  cases policy with
  | skip =>
    rw [run_skip]
    exact ⟨nofun, nofun⟩
  | abort =>
    cases he : t.errors with
    | nil =>
      rw [run_abort_of_errors_nil t ds he, run_skip]
      exact ⟨nofun, nofun⟩
    | cons e' es =>
      rw [run_abort_of_errors_cons t ds e' es he, List.head?_cons, Except.error.injEq,
        Option.some.injEq]
      exact ⟨fun h => ⟨rfl, h⟩, fun h => h.2⟩

theorem eq_commands_of_run_eq_ok (t : Trace) (policy : UnitPolicy) (ds ds' : Diagnostics)
    (cmds : List Command) (h : run policy t ds = (.ok cmds, ds')) : cmds = t.commands := by
  have hskip := run_skip_of_run_eq_ok t policy ds ds' cmds h
  rw [run_skip] at hskip
  exact (Except.ok.inj (Prod.mk.inj hskip).1).symm

theorem eq_diagnostics_of_run_eq_ok (t : Trace) (policy : UnitPolicy) (ds ds' : Diagnostics)
    (cmds : List Command) (h : run policy t ds = (.ok cmds, ds')) :
    ds' = ds.pushAll t.diagnostics := by
  have hskip := run_skip_of_run_eq_ok t policy ds ds' cmds h
  rw [run_skip] at hskip
  exact (Prod.mk.inj hskip).2.symm

end Trace

/-! ## plans -/

namespace Plan

/-- the sections of a plan whose failures are left out -/
def sections (plan : Plan) : List Section :=
  plan.flatMap fun (phase, trace) => Section.ofPhase phase trace.commands

def errors (plan : Plan) : List CompileError := plan.flatMap (·.2.errors)

/-- what a plan records when nothing stops it -/
def diagnostics (plan : Plan) : List Diagnostic := plan.flatMap (·.2.diagnostics)

theorem errors_append (a b : Plan) : errors (a ++ b) = errors a ++ errors b := by
  simp [errors, List.flatMap_append]
theorem diagnostics_append (a b : Plan) :
    diagnostics (a ++ b) = diagnostics a ++ diagnostics b := by
  simp [diagnostics, List.flatMap_append]

theorem sections_cons (phase : Phase) (trace : Trace) (plan : Plan) :
    sections ((phase, trace) :: plan) = Section.ofPhase phase trace.commands ++ sections plan := rfl
theorem errors_cons (phase : Phase) (trace : Trace) (plan : Plan) :
    errors ((phase, trace) :: plan) = trace.errors ++ errors plan := rfl
theorem diagnostics_cons (phase : Phase) (trace : Trace) (plan : Plan) :
    diagnostics ((phase, trace) :: plan) = trace.diagnostics ++ diagnostics plan := rfl

theorem diagnostics_skipped (plan : Plan) :
    plan.diagnostics.filter (·.severity = .skipped) = plan.errors.map .skipped := by
  induction plan with
  | nil => rfl
  | cons p plan ih =>
    obtain ⟨phase, trace⟩ := p
    rw [diagnostics_cons, errors_cons, List.filter_append, List.map_append, ih,
      Trace.diagnostics_skipped]

theorem run_skip (plan : Plan) (ds : Diagnostics) :
    run .skip plan ds = (.ok plan.sections, ds.pushAll plan.diagnostics) := by
  induction plan generalizing ds with
  | nil => rfl
  | cons p plan ih =>
    obtain ⟨phase, trace⟩ := p
    simp only [run, Trace.run_skip, ih, diagnostics_cons, Diagnostics.pushAll_append]
    rfl

theorem run_abort_of_errors_nil (plan : Plan) (ds : Diagnostics) (h : plan.errors = []) :
    run .abort plan ds = run .skip plan ds := by
  induction plan generalizing ds with
  | nil => rfl
  | cons p plan ih =>
    obtain ⟨phase, trace⟩ := p
    rw [errors_cons, List.append_eq_nil_iff] at h
    simp only [run, Trace.run_abort_of_errors_nil trace ds h.1, Trace.run_skip, ih _ h.2]

theorem run_abort_of_errors_cons (plan : Plan) (ds : Diagnostics) (e : CompileError)
    (es : List CompileError) (h : plan.errors = e :: es) : (run .abort plan ds).1 = .error e := by
  induction plan generalizing ds with
  | nil => exact absurd h (List.cons_ne_nil e es).symm
  | cons p plan ih =>
    obtain ⟨phase, trace⟩ := p
    rw [errors_cons] at h
    cases ht : trace.errors with
    | nil =>
      -- the phase passes, so the failure is one of a later phase
      rw [ht, List.nil_append] at h
      simp only [run, Trace.run_abort_of_errors_nil trace ds ht, Trace.run_skip, ih _ h]
      rfl
    | cons e' es' =>
      rw [ht, List.cons_append] at h
      obtain ⟨rfl, _⟩ := List.cons.inj h
      have hrun := Trace.run_abort_of_errors_cons trace ds e' es' ht
      rw [run]
      split
      · next e'' ds' heq =>
        rw [heq] at hrun
        cases hrun
        rfl
      · next cmds ds' heq =>
        rw [heq] at hrun
        cases hrun

/-- the script of a plan whose failures are left out -/
def skipped (plan : Plan) : Script := ⟨plan.sections, ({} : Diagnostics).pushAll plan.diagnostics⟩

theorem script_skip (plan : Plan) : plan.script .skip = .ok plan.skipped := by
  simp only [script, run_skip]
  rfl

theorem script_abort (plan : Plan) :
    plan.script .abort = match plan.errors with
      | [] => .ok plan.skipped
      | e :: _ => .error e := by
  cases h : plan.errors with
  | nil =>
    simp only [script, run_abort_of_errors_nil plan {} h, run_skip]
    rfl
  | cons e es =>
    simp only [script, run_abort_of_errors_cons plan {} e es h]
    rfl

theorem script_eq_ok_of_errors_nil (plan : Plan) (policy : UnitPolicy) (h : plan.errors = []) :
    plan.script policy = .ok plan.skipped := by
  cases policy with
  | skip => exact plan.script_skip
  | abort => rw [script_abort, h]

theorem errors_nil_of_script_abort (plan : Plan) (s : Script) (h : plan.script .abort = .ok s) :
    plan.errors = [] := by
  rw [script_abort] at h
  cases he : plan.errors with
  | nil => rfl
  | cons e es =>
    rw [he] at h
    cases h

theorem eq_skipped_of_script_eq_ok (plan : Plan) (policy : UnitPolicy) (s : Script)
    (h : plan.script policy = .ok s) : s = plan.skipped := by
  cases policy with
  | skip =>
    rw [script_skip] at h
    exact (Except.ok.inj h).symm
  | abort =>
    rw [script_abort] at h
    cases he : plan.errors with
    | nil =>
      rw [he] at h
      exact (Except.ok.inj h).symm
    | cons e es =>
      rw [he] at h
      cases h

/-- the first unit left out tells the first failure -/
theorem skippedUnits_head (plan : Plan) :
    plan.skipped.diagnostics.skippedUnits.head? = plan.errors.head?.map .skipped := by
  show (({} : Diagnostics).pushAll plan.diagnostics).skippedUnits.head? = _
  rw [Diagnostics.skippedUnits_pushAll, Diagnostics.pushAll_head, diagnostics_skipped,
    List.head?_map]

theorem skippedUnits_eq_nil (plan : Plan) :
    plan.skipped.diagnostics.skippedUnits = [] ↔ plan.errors = [] := by
  rw [← List.head?_eq_none_iff, skippedUnits_head, Option.map_eq_none_iff, List.head?_eq_none_iff]

end Plan

/-! ## scripts -/

namespace Request

/-- the requests whose scripts go by the unit policy -/
def lifecycle : List Request := [.up, .down, .conf, .reup, .reconf]

end Request

/-- a script that goes by the policy is made from one plan under either -/
theorem Topology.exists_plan (t : Topology) (handles : HandlePolicy) (r : Request)
    (hr : r ∈ Request.lifecycle) :
    ∃ plan : Plan, ∀ policy, t.script ⟨policy, handles⟩ r = plan.script policy := by
  simp only [Request.lifecycle, List.mem_cons, List.not_mem_nil, or_false] at hr
  obtain rfl | rfl | rfl | rfl | rfl := hr
  · exact ⟨t.precmdPlan ++ t.upPlan handles, fun _ => rfl⟩
  · exact ⟨t.precmdPlan ++ t.downPlan, fun _ => rfl⟩
  · exact ⟨t.precmdPlan ++ t.confPlan, fun _ => rfl⟩
  · exact ⟨t.precmdPlan ++ t.downPlan ++ t.upPlan handles, fun _ => rfl⟩
  · exact ⟨t.precmdPlan ++ t.downPlan ++ t.upPlan handles ++ t.confPlan, fun _ => rfl⟩

/-- **The two policies agree.**  Under `skip` there is always a script.  Under `abort` there is one
exactly if that script leaves nothing out, and then it is the same script; otherwise the error is
the one that the first unit left out tells. -/
theorem abort_agrees_with_skip (t : Topology) (handles : HandlePolicy) (r : Request)
    (hr : r ∈ Request.lifecycle) :
    ∃ s, t.script ⟨.skip, handles⟩ r = .ok s ∧
      ((∃ s', t.script ⟨.abort, handles⟩ r = .ok s') ↔ s.diagnostics.skippedUnits = []) ∧
      (∀ s', t.script ⟨.abort, handles⟩ r = .ok s' →
        s'.sections = s.sections ∧ s'.diagnostics = s.diagnostics) ∧
      (∀ e, t.script ⟨.abort, handles⟩ r = .error e →
        s.diagnostics.skippedUnits.head? = some ⟨.skipped, e.message⟩) := by
  obtain ⟨plan, hplan⟩ := t.exists_plan handles r hr
  refine ⟨plan.skipped, ?_, ?_, ?_, ?_⟩
  · rw [hplan, Plan.script_skip]
  · rw [hplan, Plan.script_abort, Plan.skippedUnits_eq_nil]
    cases plan.errors with
    | nil => exact ⟨fun _ => rfl, fun _ => ⟨_, rfl⟩⟩
    | cons e es => exact ⟨fun ⟨_, h⟩ => (nomatch h), fun h => (nomatch h)⟩
  · intro s' h
    rw [hplan] at h
    rw [plan.eq_skipped_of_script_eq_ok .abort s' h]
    exact ⟨rfl, rfl⟩
  · intro e h
    rw [hplan, Plan.script_abort] at h
    rw [Plan.skippedUnits_head]
    cases he : plan.errors with
    | nil =>
      rw [he] at h
      cases h
    | cons e' es =>
      rw [he] at h
      cases h
      rfl

/-! ## an example -/

namespace HalfBuilt

/-- a node of no known kind -/
def machine : Node where
  name := "V1"
  type := some "vm"
  interfaces := [{ name := "net0", type := "direct", args := some "R1#net0" }]

/-- a node that links to the machine and attaches to one switch twice -/
def router : Node where
  name := "R1"
  image := some "ubuntu"
  interfaces :=
    [ { name := "net0", type := "direct", args := some "V1#net0" },
      { name := "net1", type := "bridge", args := some "B0" },
      { name := "net2", type := "bridge", args := some "B0" },
      { name := "net3", type := "direct", args := some "C1#net0" } ]

def client : Node where
  name := "C1"
  type := some "netns"
  interfaces :=
    [ { name := "net0", type := "direct", args := some "R1#net3",
        addr := some "02:00:00:00:00:09" } ]

/-- a topology of which only a part can be made -/
def topology : Topology where
  nodes := [machine, router, client]
  switches := [{ name := "B0" }]
  nodeConfigs := [⟨"V1", ["ip link"]⟩, ⟨"R1", ["ip link"]⟩, ⟨"X9", ["true"]⟩]

end HalfBuilt

theorem skip_tells_abort_halfBuilt : Request.up ∈ Request.lifecycle ∧
    ∃ s, HalfBuilt.topology.script ⟨.skip, .keep⟩ .up = .ok s ∧
      s.diagnostics.skippedUnits.head?
        = some ⟨.skipped, "Node 'V1' has unsupported type 'vm' (expected docker or netns)"⟩ := by
  have hr : Request.up ∈ Request.lifecycle := by decide
  obtain ⟨s, hs, _, _, herror⟩ := abort_agrees_with_skip HalfBuilt.topology .keep .up hr
  exact ⟨hr, s, hs, herror (.unsupportedNodeKind "V1" "vm") rfl⟩

end Netlab
