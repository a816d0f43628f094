import Netlab.Proofs.Policy
import Netlab.Proofs.Wiring.Step

/-!
# What the phases report

Every phase is a trace.  Here it is said, for each phase, which blocks of commands it emits and
for which nodes, so that a statement about all commands of a script comes down to one about each
block.

* `emit_mem_createNodes`, `emit_mem_mountNetns`, `emit_mem_configure`   the blocks of three phases;
* `emit_mem_wireLinks`      the blocks of the wiring;
* `Plan.mem_sections`       a section of a script holds the commands of one phase of its plan.
-/

namespace Netlab

open Shell (Command)

/-! ## reports -/

def Report.commands : Report → List Command
  | .emit cmds => cmds
  | _ => []

theorem Report.ofUnit_eq_emit (unit : Except CompileError (List Command)) (cmds : List Command) :
    .emit cmds = Report.ofUnit unit ↔ unit = .ok cmds := by
  cases unit with
  | error e => exact ⟨fun h => (nomatch h), fun h => (nomatch h)⟩
  | ok cmds' => exact ⟨fun h => by rw [Report.emit.inj h], fun h => by rw [Except.ok.inj h]; rfl⟩

theorem Report.ofUnit_eq_fail (unit : Except CompileError (List Command)) (e : CompileError) :
    Report.ofUnit unit = .fail e ↔ unit = .error e := by
  cases unit with
  | error e' => exact ⟨fun h => by rw [Report.fail.inj h], fun h => by rw [Except.error.inj h]; rfl⟩
  | ok cmds => exact ⟨nofun, nofun⟩

namespace Trace

theorem commands_eq (t : Trace) : t.commands = t.flatMap Report.commands := by
  refine List.flatMap_congr fun r _ => ?_
  cases r <;> rfl

theorem mem_commands (t : Trace) (c : Command) :
    c ∈ t.commands ↔ ∃ cmds, .emit cmds ∈ t ∧ c ∈ cmds := by
  rw [commands_eq, List.mem_flatMap]
  constructor
  · rintro ⟨r, hr, hc⟩
    cases r with
    | emit cmds => exact ⟨cmds, hr, hc⟩
    | warn | fail => exact absurd hc List.not_mem_nil
  · exact fun ⟨cmds, hr, hc⟩ => ⟨.emit cmds, hr, hc⟩

/-- a unit that does not fail: what it emits, no error, and its warnings -/
theorem commands_warned (messages : List String) (cmds : List Command) :
    commands (messages.map .warn ++ [.emit cmds]) = cmds := by
  induction messages with
  | nil => exact List.append_nil cmds
  | cons m messages ih => exact ih

theorem errors_warned (messages : List String) (cmds : List Command) :
    errors (messages.map .warn ++ [.emit cmds]) = [] := by
  induction messages with
  | nil => rfl
  | cons m messages ih => exact ih

theorem diagnostics_warned (messages : List String) (cmds : List Command) :
    diagnostics (messages.map .warn ++ [.emit cmds]) = messages.map .warning := by
  induction messages with
  | nil => rfl
  | cons m messages ih => exact congrArg (.warning m :: ·) ih

theorem commands_warned_once (message : String) (cmds : List Command) :
    commands [.warn message, .emit cmds] = cmds := commands_warned [message] cmds

theorem diagnostics_warned_once (message : String) (cmds : List Command) :
    diagnostics [.warn message, .emit cmds] = [.warning message] :=
  diagnostics_warned [message] cmds

theorem mem_errors (t : Trace) (e : CompileError) : e ∈ t.errors ↔ .fail e ∈ t := by
  rw [errors, List.mem_flatMap]
  constructor
  · rintro ⟨r, hr, he⟩
    cases r with
    | fail e' => rwa [List.mem_singleton.mp he]
    | emit | warn => exact absurd he List.not_mem_nil
  · exact fun h => ⟨.fail e, h, List.mem_singleton_self e⟩

theorem mem_diagnostics_of_fail (t : Trace) (e : CompileError) (h : .fail e ∈ t) :
    .skipped e ∈ t.diagnostics :=
  List.mem_flatMap.mpr ⟨.fail e, h, List.mem_singleton_self _⟩

end Trace

/-! ## sections of a plan -/

/-- a phase whose commands are written by the user -/
def Phase.isHook : Phase → Bool
  | .precmd | .preinit | .postinit | .postfini => true
  | _ => false

namespace Plan

theorem mem_sections (plan : Plan) (s : Section) (hs : s ∈ plan.sections) :
    ∃ trace, (s.phase, trace) ∈ plan ∧ s.commands = trace.commands := by
  obtain ⟨⟨phase, trace⟩, hp, hs⟩ := List.mem_flatMap.mp hs
  simp only [Section.ofPhase] at hs
  split at hs
  · exact absurd hs List.not_mem_nil
  · obtain rfl := List.mem_singleton.mp hs
    exact ⟨trace, hp, rfl⟩

/-- where no phase stands twice, the commands under the name of a phase are those of its trace -/
theorem commands_phase? (plan : Plan) (hnodup : (plan.map (·.1)).Nodup) (phase : Phase)
    (trace : Trace) (hp : (phase, trace) ∈ plan) :
    (plan.skipped.phase? phase).getD [] = trace.commands := by
  show ((plan.sections.find? (·.phase == phase)).map (·.commands)).getD [] = _
  induction plan with
  | nil => cases hp
  | cons p plan ih =>
    obtain ⟨q, trace'⟩ := p
    rw [List.map_cons, List.nodup_cons] at hnodup
    rw [sections_cons, List.find?_append]
    obtain heq | hp := List.mem_cons.mp hp
    · cases heq
      have hrest : (sections plan).find? (·.phase == phase) = none := by
        refine List.find?_eq_none.mpr fun s hs h => hnodup.1 ?_
        obtain ⟨trace', hmem, _⟩ := mem_sections plan s hs
        exact List.mem_map.mpr ⟨_, hmem, eq_of_beq h⟩
      rw [hrest, Option.or_none, Section.ofPhase]
      cases trace.commands <;> simp
    · have hmem : phase ∈ plan.map (·.1) := List.mem_map.mpr ⟨_, hp, rfl⟩
      have hne : q ≠ phase := fun e => hnodup.1 (e ▸ hmem)
      have hfirst : (Section.ofPhase q trace'.commands).find? (·.phase == phase) = none := by
        rw [Section.ofPhase]
        split <;> simp [hne]
      rw [hfirst, Option.none_or]
      exact ih hnodup.2 hp

theorem mem_diagnostics (plan : Plan) (phase : Phase) (trace : Trace) (hp : (phase, trace) ∈ plan)
    (d : Diagnostic) (hd : d ∈ trace.diagnostics) : d ∈ plan.skipped.diagnostics.toList :=
  (Diagnostics.mem_pushAll _ _ d).mpr (Or.inr (List.mem_flatMap.mpr ⟨(phase, trace), hp, hd⟩))

end Plan

/-! ## generated commands -/

/-- the commands of a script that are not written by the user -/
def Script.generated (s : Script) : List Command :=
  (s.sections.filter (!·.phase.isHook)).flatMap (·.commands)

namespace Plan

def generated (plan : Plan) : List Command :=
  plan.flatMap fun (phase, trace) => if phase.isHook then [] else trace.commands

theorem generated_append (a b : Plan) : generated (a ++ b) = generated a ++ generated b := by
  simp [generated, List.flatMap_append]

theorem generated_cons (phase : Phase) (trace : Trace) (plan : Plan) :
    generated ((phase, trace) :: plan)
      = (if phase.isHook then [] else trace.commands) ++ generated plan := rfl

theorem generated_hooks (phase : Phase) (groups : List HookGroup) (h : phase.isHook = true) :
    generated (hooks phase groups) = [] := by
  rw [hooks, generated_cons, if_pos h]
  rfl

theorem generated_skipped (plan : Plan) : plan.skipped.generated = plan.generated := by
  show (plan.sections.filter (!·.phase.isHook)).flatMap (·.commands) = _
  induction plan with
  | nil => rfl
  | cons p plan ih =>
    obtain ⟨phase, trace⟩ := p
    rw [sections_cons, List.filter_append, List.flatMap_append, generated_cons, ih, Section.ofPhase]
    congr 1
    cases hc : trace.commands with
    | nil => simp
    | cons c cs =>
      by_cases hook : phase.isHook
      · simp [hook]
      · simp [hook]

end Plan

namespace Topology

/-- the commands of the three phases before the wiring -/
def preparation (t : Topology) : List Command :=
  t.createSwitches ++ (t.createNodes.commands ++ t.mountNetns.commands)

theorem generated_upPlan (t : Topology) (handles : HandlePolicy) :
    (t.upPlan handles).generated = t.preparation ++ (t.wireLinks handles).commands := by
  rw [preparation, upPlan, Plan.generated_append, Plan.generated_append,
    Plan.generated_hooks _ _ rfl, Plan.generated_hooks _ _ rfl]
  simp [Plan.generated, Phase.isHook, Trace.commands]

theorem generated_downPlan (t : Topology) : t.downPlan.generated = t.delete.commands := by
  rw [downPlan, Plan.generated_cons, Plan.generated_hooks _ _ rfl, List.append_nil]
  rfl

theorem generated_confPlan (t : Topology) : t.confPlan.generated = t.configure.commands :=
  List.append_nil _

theorem generated_precmdPlan (t : Topology) : t.precmdPlan.generated = [] :=
  Plan.generated_hooks _ _ rfl

end Topology

/-! ## creation -/

namespace Node

theorem creatable_eq_ok (n : Node) (kind : NodeKind) :
    n.creatable = .ok kind ↔ n.kind = .ok kind ∧ ∃ cmds, n.create kind = .ok cmds := by
  rw [creatable, bind_eq_ok]
  constructor
  · rintro ⟨kind', hk, h⟩
    obtain ⟨cmds, hc, h⟩ := (bind_eq_ok _ _ _).mp h
    obtain rfl := Except.ok.inj h
    exact ⟨hk, cmds, hc⟩
  · rintro ⟨hk, cmds, hc⟩
    exact ⟨kind, hk, (bind_eq_ok _ _ _).mpr ⟨cmds, hc, rfl⟩⟩

theorem creation_eq_ok (n : Node) (cmds : List Command) :
    (do n.create (← n.kind)) = .ok cmds
      ↔ ∃ kind, n.creatable = .ok kind ∧ n.create kind = .ok cmds := by
  rw [bind_eq_ok]
  constructor
  · exact fun ⟨kind, hk, hc⟩ => ⟨kind, (n.creatable_eq_ok kind).mpr ⟨hk, cmds, hc⟩, hc⟩
  · exact fun ⟨kind, hk, hc⟩ => ⟨kind, ((n.creatable_eq_ok kind).mp hk).1, hc⟩

/-- a creation that fails fails for every later use alike -/
theorem creation_eq_error (n : Node) (e : CompileError) :
    (do n.create (← n.kind)) = .error e ↔ n.creatable = .error e := by
  rw [creatable]
  cases n.kind with
  | error e' =>
    show (.error e' : Except CompileError (List Command)) = .error e
      ↔ (.error e' : Except CompileError NodeKind) = .error e
    rw [Except.error.injEq, Except.error.injEq]
  | ok kind =>
    show n.create kind = .error e ↔ (n.create kind >>= fun _ => pure kind) = .error e
    cases n.create kind with
    | error e' =>
      show _ ↔ (.error e' : Except CompileError NodeKind) = .error e
      rw [Except.error.injEq, Except.error.injEq]
    | ok cmds => exact ⟨fun h => (nomatch h), fun h => (nomatch h)⟩

end Node

/-! ## blocks of the phases -/

namespace Topology

section
variable (t : Topology) (cmds : List Command)

theorem emit_mem_createNodes :
    .emit cmds ∈ t.createNodes ↔
      ∃ n ∈ t.nodes, ∃ kind, n.creatable = .ok kind ∧ n.create kind = .ok cmds := by
  rw [createNodes, List.mem_map]
  refine exists_congr fun n => and_congr_right fun _ => ?_
  rw [eq_comm, Report.ofUnit_eq_emit, n.creation_eq_ok]

theorem emit_mem_mountNetns :
    .emit cmds ∈ t.mountNetns ↔
      ∃ n ∈ t.nodes, ∃ kind, n.creatable = .ok kind ∧ cmds = kind.mount n.name := by
  rw [mountNetns, List.mem_map]
  refine exists_congr fun n => and_congr_right fun _ => ?_
  rw [eq_comm, Report.ofUnit_eq_emit, bind_eq_ok]
  exact exists_congr fun kind => and_congr_right fun _ =>
    ⟨fun h => (Except.ok.inj h).symm, fun h => by rw [h]; rfl⟩

theorem emit_mem_configure :
    .emit cmds ∈ t.configure ↔
      ∃ config ∈ t.nodeConfigs, ∃ n, t.node? config.name = some n ∧
        ∃ kind, n.creatable = .ok kind ∧ cmds = config.cmds.map (kind.exec n.name) := by
  rw [configure, List.mem_map]
  refine exists_congr fun config => and_congr_right fun _ => ?_
  split
  · next hnone => exact ⟨fun h => (nomatch h), fun ⟨n, hn, _⟩ => by rw [hnone] at hn; cases hn⟩
  · next n hn =>
    rw [eq_comm, Report.ofUnit_eq_emit, bind_eq_ok, hn]
    constructor
    · rintro ⟨kind, hk, h⟩
      exact ⟨n, rfl, kind, hk, (Except.ok.inj h).symm⟩
    · rintro ⟨m, hm, kind, hk, h⟩
      obtain rfl := Option.some.inj hm
      exact ⟨kind, hk, by rw [h]; rfl⟩

end

/-- What the wiring emits for an interface: its whole link, or for a link made already the address
of this end. -/
def WiringBlock (t : Topology) (handles : HandlePolicy) (cmds : List Command) : Prop :=
  ∃ n ∈ t.nodes, ∃ kind, n.creatable = .ok kind ∧ ∃ i ∈ n.interfaces,
    cmds = Link.addressCommands n.name i.name i.addr
      ∨ ∃ l, Link.parse n.name i = .ok l ∧ cmds = l.commands n.name kind i.name i.addr handles
          ∧ ∀ peer peerInterface, l = .direct peer peerInterface → t.Usable peer

theorem Wires.emit_mem {t : Topology} {handles : HandlePolicy} {w w' : Wired} {s : Site}
    {trace : Trace} (hstep : t.Wires handles w s trace w') (hs : s ∈ t.sites) (cmds : List Command)
    (hr : .emit cmds ∈ trace) : t.WiringBlock handles cmds := by
  cases hstep with
  | lost | unreadable | stranded | taken => simp at hr
  | repeated n kind i peer peerInterface hlink hkey =>
    obtain ⟨hn, hk, hi⟩ := (t.mem_sites_live n kind i).mp hs
    exact ⟨n, hn, kind, hk, i, hi, Or.inl (by simpa using hr)⟩
  | made n kind i l hlink hfree =>
    obtain ⟨hn, hk, hi⟩ := (t.mem_sites_live n kind i).mp hs
    refine ⟨n, hn, kind, hk, i, hi, Or.inr ⟨l, hlink, by simpa using hr, ?_⟩⟩
    rintro peer peerInterface rfl
    exact hfree.2

theorem emit_mem_wireLinks (t : Topology) (cmds : List Command) (handles : HandlePolicy)
    (h : .emit cmds ∈ t.wireLinks handles) : t.WiringBlock handles cmds := by
  obtain ⟨before, s, after, hss, hr⟩ := (t.mem_wireSites handles {} t.sites _).mp h
  have hs : s ∈ t.sites := by rw [hss]; simp
  exact (t.wires_wireSite handles (t.wiredAfter handles {} before) s).emit_mem hs cmds hr

end Topology

end Netlab
