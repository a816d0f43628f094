import Netlab.Cli.Program
import Netlab.Proofs.Composites

/-!
# A check foretells every script

A check makes four scripts under the policy it is given and looks at failures and at what was left
out.  Whatever the policy, it passes exactly if the three scripts that go by the policy can be made
without leaving anything out, and then so can every other script.

* `Plan.whole_script_iff`     a script of a plan is whole if nothing in the plan fails;
* `Check.passed_add`          one script of a check;
* `check_passed_iff`          a whole check;
* `whole_of_resolves`         the scripts that it does not make;
* `check_foretells`           the property, of the answer of the program.
-/

namespace Netlab

/-! ## whole scripts -/

/-- a script can be made, and leaves nothing out -/
def Whole (outcome : Except CompileError Script) : Prop :=
  ∃ s, outcome = .ok s ∧ s.diagnostics.skippedUnits = []

theorem not_whole_error (e : CompileError) : ¬ Whole (.error e) := fun ⟨_, h, _⟩ => nomatch h

theorem whole_ok_iff (s : Script) : Whole (.ok s) ↔ s.diagnostics.skippedUnits = [] := by
  constructor
  · rintro ⟨s', hs, h⟩
    rwa [Except.ok.inj hs]
  · exact fun h => ⟨s, rfl, h⟩

namespace Plan

theorem exists_script_abort_iff (plan : Plan) :
    (∃ s, plan.script .abort = .ok s) ↔ plan.errors = [] := by
  constructor
  · exact fun ⟨s, hs⟩ => plan.errors_nil_of_script_abort s hs
  · exact fun h => ⟨_, plan.script_eq_ok_of_errors_nil .abort h⟩

theorem whole_script_iff (plan : Plan) (policy : UnitPolicy) :
    Whole (plan.script policy) ↔ plan.errors = [] := by
  constructor
  · rintro ⟨s, hs, hskipped⟩
    rw [plan.eq_skipped_of_script_eq_ok policy s hs] at hskipped
    exact plan.skippedUnits_eq_nil.mp hskipped
  · intro h
    rw [plan.script_eq_ok_of_errors_nil policy h, whole_ok_iff]
    exact plan.skippedUnits_eq_nil.mpr h

end Plan

/-! ## checks -/

namespace Check

theorem passed_iff (c : Check) :
    c.passed = true ↔ c.failures = [] ∧ c.diagnostics.skippedUnits = [] := by
  rw [passed, Bool.and_eq_true, List.isEmpty_iff, List.isEmpty_iff]

theorem passed_add (c : Check) (name : String) (outcome : Except CompileError Script) :
    (c.add name outcome).passed = true ↔ c.passed = true ∧ Whole outcome := by
  rw [passed_iff, passed_iff]
  cases outcome with
  | ok s =>
    rw [whole_ok_iff, and_assoc, ← Diagnostics.skippedUnits_extend_eq_nil]
    exact Iff.rfl
  | error e =>
    have hfailures : (c.add name (.error e)).failures ≠ [] := List.concat_ne_nil _ _
    constructor
    · exact fun h => absurd h.1 hfailures
    · exact fun h => absurd h.2 (not_whole_error e)

end Check

/-! ## the scripts of a topology -/

/-- the names that a request gives are declared -/
def Request.Resolves (t : Topology) : Request → Prop
  | .test (some name) => ∃ test ∈ t.tests, test.name = name
  | .exec node _ => ∃ n ∈ t.nodes, n.name = node
  | _ => True

namespace Topology

section
variable (t : Topology)

/-- whether a script that goes by the policy is whole does not go by the policy -/
theorem whole_script_iff (o : CompileOptions) (r : Request) (hr : r ∈ Request.lifecycle) :
    Whole (t.script o r) ↔ ∃ s, t.script ⟨.abort, o.handles⟩ r = .ok s := by
  obtain ⟨plan, hplan⟩ := t.exists_plan o.handles r hr
  rw [hplan o.policy, hplan .abort, plan.whole_script_iff, plan.exists_script_abort_iff]

theorem testCommands_of_resolves (name : Option String) (h : (Request.test name).Resolves t) :
    ∃ cmds, t.testCommands name = .ok cmds := by
  cases name with
  | none => exact ⟨_, rfl⟩
  | some name =>
    obtain ⟨test, htest, hname⟩ := h
    have hmem : test ∈ t.tests.filter (·.name == name) :=
      List.mem_filter.mpr ⟨htest, beq_iff_eq.mpr hname⟩
    rw [testCommands]
    split
    · next hnone =>
      rw [hnone] at hmem
      exact absurd hmem List.not_mem_nil
    · exact ⟨_, rfl⟩

theorem whole_testScript (name : Option String) (h : (Request.test name).Resolves t) :
    Whole (t.testScript name) := by
  obtain ⟨cmds, hcmds⟩ := t.testCommands_of_resolves name h
  rw [testScript, hcmds]
  exact ⟨_, rfl, rfl⟩

theorem check_passed_iff (o : CompileOptions) :
    (t.check o).passed = true ↔
      (∃ s, t.up ⟨.abort, o.handles⟩ = .ok s) ∧ (∃ s, t.down ⟨.abort, o.handles⟩ = .ok s) ∧
        ∃ s, t.conf ⟨.abort, o.handles⟩ = .ok s := by
  have hup := t.whole_script_iff o .up (by decide)
  have hdown := t.whole_script_iff o .down (by decide)
  have hconf := t.whole_script_iff o .conf (by decide)
  have htest : Whole (t.testScript none) := t.whole_testScript none trivial
  have hempty : ({} : Check).passed = true := rfl
  rw [check, Check.passed_add, Check.passed_add, Check.passed_add, Check.passed_add]
  simp only [hempty, htest, true_and, and_true, and_assoc]
  exact and_congr hup (and_congr hdown hconf)

variable {t} {o : CompileOptions} (hup : Whole (t.up o)) (hdown : Whole (t.down o))
  (hconf : Whole (t.conf o))

include hup hdown in
theorem whole_reup : Whole (t.reup o) := by
  obtain ⟨d, hd, hdskipped⟩ := hdown
  obtain ⟨u, hu, huskipped⟩ := hup
  rw [reup_eq, hd, hu]
  exact ⟨_, rfl, (Diagnostics.skippedUnits_extend_eq_nil _ _).mpr ⟨hdskipped, huskipped⟩⟩

include hup hdown hconf in
theorem whole_reconf : Whole (t.reconf o) := by
  obtain ⟨s, hs, hskipped⟩ := whole_reup hup hdown
  obtain ⟨c, hc, hcskipped⟩ := hconf
  rw [reconf_eq, hs, hc]
  exact ⟨_, rfl, (Diagnostics.skippedUnits_extend_eq_nil _ _).mpr ⟨hskipped, hcskipped⟩⟩

include hdown in
/-- what can be removed is of a known kind -/
theorem kind_of_whole_down (n : Node) (hn : n ∈ t.nodes) : ∃ kind, n.kind = .ok kind := by
  have herrors := (Plan.whole_script_iff _ o.policy).mp hdown
  cases hk : n.kind with
  | ok kind => exact ⟨kind, rfl⟩
  | error e =>
    have hdelete : .fail e ∈ t.delete := by
      refine List.mem_append_left _ (List.mem_map.mpr ⟨n, hn, ?_⟩)
      rw [hk]
      rfl
    have he : e ∈ (t.precmdPlan ++ t.downPlan).errors :=
      List.mem_flatMap.mpr ⟨(.delete, t.delete), by simp [downPlan],
        (Trace.mem_errors _ e).mpr hdelete⟩
    rw [herrors] at he
    exact absurd he List.not_mem_nil

include hdown in
theorem whole_execScript (node : String) (args : List String)
    (h : (Request.exec node args).Resolves t) : Whole (t.execScript node args) := by
  obtain ⟨n, hn, hname⟩ := h
  have hfound : (t.node? node).isSome = true :=
    List.find?_isSome.mpr ⟨n, hn, beq_iff_eq.mpr hname⟩
  obtain ⟨m, hm⟩ := Option.isSome_iff_exists.mp hfound
  obtain ⟨kind, hk⟩ := kind_of_whole_down hdown m (t.node?_mem node m hm)
  have hexec : t.exec node args = .ok (kind.exec m.name (" ".intercalate args)) := by
    rw [exec, hm]
    simp only [hk]
    rfl
  rw [execScript, hexec]
  exact ⟨_, rfl, rfl⟩

include hup hdown hconf in
/-- every script whose names are declared -/
theorem whole_of_resolves (r : Request) (hr : r.Resolves t) : Whole (t.script o r) := by
  cases r with
  | up => exact hup
  | down => exact hdown
  | conf => exact hconf
  | reup => exact whole_reup hup hdown
  | reconf => exact whole_reconf hup hdown hconf
  | test name => exact t.whole_testScript name hr
  | pull => exact ⟨_, rfl, rfl⟩
  | exec node args => exact whole_execScript hdown node args hr

end

end Topology

/-! ## the answer of the program -/

namespace Cli.Invocation

theorem respondCheck_result (i : Invocation) (t : Topology) :
    (i.respondCheck t).result
      = if (t.check i.options).passed = true then .ok none else .error .check := by
  rw [respondCheck]
  split <;> rfl

theorem respondCheck_eq_ok_iff (i : Invocation) (t : Topology) :
    (i.respondCheck t).result = .ok none ↔ (t.check i.options).passed = true := by
  rw [respondCheck_result]
  split
  · next h => exact ⟨fun _ => h, fun _ => rfl⟩
  · next h => exact ⟨fun hr => (nomatch hr), fun hp => absurd hp h⟩

/-- **A check foretells every script.**  It succeeds exactly if the scripts for `up`, `down` and
`conf` can be made under `abort`, so its answer is the same under either policy.  When it succeeds,
every script can be made with the same options and leaves nothing out, as long as the test or the
node that it names is declared. -/
theorem check_foretells (i : Invocation) (t : Topology) :
    ((i.respondCheck t).result = .ok none ↔
      (∃ s, t.up ⟨.abort, i.options.handles⟩ = .ok s) ∧
        (∃ s, t.down ⟨.abort, i.options.handles⟩ = .ok s) ∧
          ∃ s, t.conf ⟨.abort, i.options.handles⟩ = .ok s) ∧
    (∀ j : Invocation, j.options.handles = i.options.handles →
      (j.respondCheck t).result = (i.respondCheck t).result) ∧
    ((i.respondCheck t).result = .ok none →
      ∀ r : Request, r.Resolves t →
        ∃ s, t.script i.options r = .ok s ∧ s.diagnostics.skippedUnits = []) := by
  refine ⟨?_, ?_, ?_⟩
  · rw [respondCheck_eq_ok_iff, t.check_passed_iff]
  · intro j hj
    have hpassed : (t.check j.options).passed = true ↔ (t.check i.options).passed = true := by
      rw [t.check_passed_iff, t.check_passed_iff, hj]
    simp only [respondCheck_result, hpassed]
  · intro h r hr
    obtain ⟨hup, hdown, hconf⟩ :=
      (t.check_passed_iff i.options).mp ((i.respondCheck_eq_ok_iff t).mp h)
    exact Topology.whole_of_resolves ((t.whole_script_iff i.options .up (by decide)).mpr hup)
      ((t.whole_script_iff i.options .down (by decide)).mpr hdown)
      ((t.whole_script_iff i.options .conf (by decide)).mpr hconf) r hr

/-- a check with other options than the usual ones -/
def sampleCheck : Invocation := { task := .check, options := ⟨.skip, .release⟩ }

/-- the sample passes, and a program can be run in its router -/
theorem check_foretells_sample : (sampleCheck.respondCheck Sample.topology).result = .ok none ∧
    (Request.exec "R1" ["ip", "addr"]).Resolves Sample.topology ∧
    ∃ s, Sample.topology.script sampleCheck.options (.exec "R1" ["ip", "addr"]) = .ok s ∧
      s.diagnostics.skippedUnits = [] := by
  have hup : ∃ s, Sample.topology.up ⟨.abort, .release⟩ = .ok s :=
    (Plan.exists_script_abort_iff _).mpr (by decide +kernel)
  have hdown : ∃ s, Sample.topology.down ⟨.abort, .release⟩ = .ok s :=
    (Plan.exists_script_abort_iff _).mpr (by decide +kernel)
  have hconf : ∃ s, Sample.topology.conf ⟨.abort, .release⟩ = .ok s :=
    (Plan.exists_script_abort_iff _).mpr (by decide +kernel)
  obtain ⟨hiff, _, hscripts⟩ := check_foretells sampleCheck Sample.topology
  have hpassed := hiff.mpr ⟨hup, hdown, hconf⟩
  have hresolves : (Request.exec "R1" ["ip", "addr"]).Resolves Sample.topology :=
    ⟨Sample.router, List.mem_cons_self .., rfl⟩
  exact ⟨hpassed, hresolves, hscripts hpassed _ hresolves⟩

end Cli.Invocation

end Netlab
