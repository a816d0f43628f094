import Mathlib.Data.List.Count
import Mathlib.Data.List.Nodup
import Netlab.Proofs.Host.Effect
import Netlab.Proofs.Phases
import Netlab.Proofs.Wiring.Block

/-!
# What is left behind and what is removed

A script that brings a topology up leaves containers, namespaces, handles and bridges on the host.
`Topology.remnants` lists them by the names and types of the nodes and the names of the switches,
and the scripts that create and the one that removes are each compared with that list.

* `Topology.remnant_of_up`    what the script for `up` leaves behind is on the list;
* `Topology.delete_commands`  the commands that remove are those for the list, in its order;
* `Topology.remnants_nodup`   in a well-formed topology nothing is on it twice;
* `Topology.down_covers_up`   so each thing left behind is removed by one command.
-/

namespace Netlab

open Shell (Command)

/-! ## remnants -/

/-- what a script leaves behind on the host -/
inductive Remnant where
  | container (name : String)
  | netns (name : String)
  | handle (name : String)
  | bridge (name : String)
deriving DecidableEq

/-- what a command leaves behind on the host -/
def Shell.Command.leaves? : Command → Option Remnant
  | .argv ("docker" :: "run" :: "-td" :: "--hostname" :: _ :: "--net" :: _ :: "--name" :: n :: _) =>
    some (.container n)
  | .argv ["ip", "netns", "add", n] => some (.netns n)
  | .argv ["ip", "link", "add", b, "type", "bridge"] => some (.bridge b)
  | .shell line => (Host.linked? line).map .handle
  | _ => none

namespace Remnant

/-- the command that removes it -/
def removal : Remnant → Command
  | container n => .argv ["docker", "rm", "-f", n]
  | netns n => .argv ["ip", "netns", "del", n]
  | handle n => .argv ["rm", "-rf", Netns.handle n]
  | bridge b => .argv ["ip", "link", "delete", b]

/-- the node that it belongs to -/
def node? : Remnant → Option String
  | container n | netns n | handle n => some n
  | bridge _ => none

/-- whether a topology declares what it belongs to -/
def Declared (t : Topology) : Remnant → Prop
  | container n | netns n | handle n => ∃ node ∈ t.nodes, node.name = n
  | bridge b => ∃ switch ∈ t.switches, switch.name = b

end Remnant

/-- what a command removes -/
def Shell.Command.clears? : Command → Option Remnant
  | .argv ["docker", "rm", "-f", n] => some (.container n)
  | .argv ["ip", "netns", "del", n] => some (.netns n)
  | .argv ["rm", "-rf", path] => (Host.handleOwner? path).map .handle
  | .argv ["ip", "link", "delete", b] => some (.bridge b)
  | _ => none

theorem Remnant.clears?_removal (m : Remnant) : m.removal.clears? = some m := by
  cases m with
  | container | netns | bridge => rfl
  | handle n => rw [removal, Command.clears?, Host.handleOwner?_handle, Option.map_some]

theorem Remnant.removal_injective : Function.Injective Remnant.removal := by
  intro m m' h
  rw [← Option.some.injEq, ← m.clears?_removal, h, m'.clears?_removal]

/-- what is left of a node -/
def NodeKind.remnants (kind : NodeKind) (name : String) : List Remnant :=
  match kind with
  | container => [.container name, .handle name]
  | netns => [.netns name, .handle name]

/-- what can be left of a node by its name and type; there is nothing if the type is not known -/
def nodeRemnants (name : String) (type : Option String) : List Remnant :=
  match NodeKind.ofType? (type.getD "") with
  | some kind => kind.remnants name
  | none => []

/-- all that can be left of a topology, node by node and then switch by switch -/
def Topology.remnants (t : Topology) : List Remnant :=
  t.nodes.flatMap (fun n => nodeRemnants n.name n.type) ++ t.switches.map (.bridge ·.name)

theorem NodeKind.delete_eq (kind : NodeKind) (name : String) :
    kind.delete name = (kind.remnants name).map Remnant.removal := by
  cases kind <;> rfl

theorem Node.kind_cases (n : Node) :
    (∃ kind, n.kind = .ok kind ∧ nodeRemnants n.name n.type = kind.remnants n.name)
      ∨ ∃ e, n.kind = .error e ∧ nodeRemnants n.name n.type = [] := by
  simp only [Node.kind, nodeRemnants]
  cases NodeKind.ofType? (n.type.getD "") with
  | none => exact Or.inr ⟨_, rfl, rfl⟩
  | some kind => exact Or.inl ⟨kind, rfl, rfl⟩

theorem Node.remnants_of_kind (n : Node) (kind : NodeKind) (hk : n.kind = .ok kind) :
    nodeRemnants n.name n.type = kind.remnants n.name := by
  obtain ⟨kind', hk', h⟩ | ⟨e, he, _⟩ := n.kind_cases
  · rw [hk] at hk'
    rw [h, Except.ok.inj hk']
  · rw [hk] at he
    cases he

/-! ## what commands leave behind -/

theorem leaves?_containerPid (n : String) : (Netns.containerPid n).leaves? = none := by
  rw [Netns.containerPid, String.append_assoc, Command.leaves?, Host.linked?_inspect,
    Option.map_none]

theorem leaves?_link (n : String) :
    (Command.shell ("ln -s /proc/$PID/ns/net " ++ Shell.quote (Netns.handle n))).leaves?
      = some (.handle n) := by
  rw [Command.leaves?, Host.linked?_link, Option.map_some]

theorem leaves?_address (n i : String) (addr : Option String) (c : Command)
    (hc : c ∈ Link.addressCommands n i addr) : c.leaves? = none := by
  obtain ⟨a, rfl⟩ := Link.exists_of_mem_address n i addr c hc
  rfl

/-- Wiring leaves nothing of its own behind: a pair of devices goes with the namespace of one
end. -/
theorem leaves?_commands (l : Link) (n : String) (kind : NodeKind) (i : String)
    (addr : Option String) (handles : HandlePolicy) (c : Command)
    (hc : c ∈ l.commands n kind i addr handles) : c.leaves? = none := by
  obtain hc | hc | ⟨a, rfl⟩ := l.mem_commands n kind i addr handles c hc
  · have hpair : ∀ c ∈ l.pairCommands n i, c.leaves? = none := by
      cases l <;> simp [Link.pairCommands, Link.hostPair, Link.vethCreate, Bridge.attach,
        Command.leaves?]
    exact hpair c hc
  · cases hc <;> rfl
  · rfl

/-! ## what is left behind -/

namespace Topology

section
variable (t : Topology)

theorem node_remnant_mem (n : Node) (hn : n ∈ t.nodes) (kind : NodeKind) (hk : n.kind = .ok kind)
    (m : Remnant) (hm : m ∈ kind.remnants n.name) : m ∈ t.remnants := by
  refine List.mem_append_left _ (List.mem_flatMap.mpr ⟨n, hn, ?_⟩)
  rwa [n.remnants_of_kind kind hk]

theorem remnant_of_createSwitches (c : Command) (hc : c ∈ t.createSwitches) (m : Remnant)
    (hm : c.leaves? = some m) : m ∈ t.remnants := by
  obtain ⟨s, hs, hc⟩ := List.mem_flatMap.mp hc
  simp only [Bridge.create, List.mem_cons, List.not_mem_nil, or_false] at hc
  obtain rfl | rfl := hc
  · obtain rfl := Option.some.inj hm
    exact List.mem_append_right _ (List.mem_map_of_mem hs)
  · cases hm

theorem remnant_of_createNodes (c : Command) (hc : c ∈ t.createNodes.commands) (m : Remnant)
    (hm : c.leaves? = some m) : m ∈ t.remnants := by
  obtain ⟨cmds, hr, hc⟩ := (Trace.mem_commands _ _).mp hc
  obtain ⟨n, hn, kind, hk, hcreate⟩ := (t.emit_mem_createNodes cmds).mp hr
  refine t.node_remnant_mem n hn kind ((n.creatable_eq_ok kind).mp hk).1 m ?_
  cases kind with
  | container =>
    obtain ⟨image, rfl⟩ := n.create_container cmds hcreate
    obtain rfl := List.mem_singleton.mp hc
    obtain rfl := Option.some.inj hm
    exact List.mem_cons_self ..
  | netns =>
    obtain rfl := Except.ok.inj hcreate
    simp only [List.cons_append, List.mem_cons, List.mem_append, List.mem_map, List.not_mem_nil,
      or_false] at hc
    obtain rfl | ⟨v, _, rfl⟩ | rfl := hc
    · obtain rfl := Option.some.inj hm
      exact List.mem_cons_self ..
    · cases hm
    · cases hm

theorem remnant_of_mountNetns (c : Command) (hc : c ∈ t.mountNetns.commands) (m : Remnant)
    (hm : c.leaves? = some m) : m ∈ t.remnants := by
  obtain ⟨cmds, hr, hc⟩ := (Trace.mem_commands _ _).mp hc
  obtain ⟨n, hn, kind, hk, rfl⟩ := (t.emit_mem_mountNetns cmds).mp hr
  refine t.node_remnant_mem n hn kind ((n.creatable_eq_ok kind).mp hk).1 m ?_
  cases kind with
  | netns => exact absurd hc List.not_mem_nil
  | container =>
    simp only [NodeKind.mount, Netns.mount, List.mem_cons, List.not_mem_nil, or_false] at hc
    obtain rfl | rfl | rfl := hc
    · cases hm
    · rw [leaves?_containerPid] at hm
      cases hm
    · rw [leaves?_link] at hm
      obtain rfl := Option.some.inj hm
      exact List.mem_cons_of_mem _ (List.mem_cons_self ..)

theorem leaves?_wiring (handles : HandlePolicy) (cmds : List Command)
    (h : t.WiringBlock handles cmds) (c : Command) (hc : c ∈ cmds) : c.leaves? = none := by
  obtain ⟨n, _, kind, _, i, _, rfl | ⟨l, _, rfl, _⟩⟩ := h
  · exact leaves?_address n.name i.name i.addr c hc
  · exact leaves?_commands l n.name kind i.name i.addr handles c hc

theorem remnant_of_up (handles : HandlePolicy) (c : Command)
    (hc : c ∈ (t.upPlan handles).generated) (m : Remnant) (hm : c.leaves? = some m) :
    m ∈ t.remnants := by
  rw [generated_upPlan, preparation, List.mem_append, List.mem_append, List.mem_append] at hc
  obtain (hc | hc | hc) | hc := hc
  · exact t.remnant_of_createSwitches c hc m hm
  · exact t.remnant_of_createNodes c hc m hm
  · exact t.remnant_of_mountNetns c hc m hm
  · obtain ⟨cmds, hr, hc⟩ := (Trace.mem_commands _ _).mp hc
    rw [t.leaves?_wiring handles cmds (t.emit_mem_wireLinks cmds handles hr) c hc] at hm
    cases hm

/-! ## what is removed -/

theorem deletion_commands (n : Node) :
    Trace.commands [Report.ofUnit do return (← n.kind).delete n.name]
      = (nodeRemnants n.name n.type).map Remnant.removal := by
  obtain ⟨kind, hk, h⟩ | ⟨e, he, h⟩ := n.kind_cases
  · rw [hk, h, ← NodeKind.delete_eq]
    exact List.append_nil _
  · rw [he, h]
    rfl

theorem delete_commands : t.delete.commands = t.remnants.map Remnant.removal := by
  have hnodes (nodes : List Node) :
      Trace.commands (nodes.map fun n => .ofUnit do return (← n.kind).delete n.name)
        = (nodes.flatMap fun n => nodeRemnants n.name n.type).map Remnant.removal := by
    induction nodes with
    | nil => rfl
    | cons n nodes ih =>
      rw [List.map_cons, Trace.commands_cons, deletion_commands, ih, List.flatMap_cons,
        List.map_append]
  rw [delete, Trace.commands_append, hnodes, remnants, List.map_append, List.map_map]
  exact congrArg (_ ++ ·) (List.append_nil _)

theorem delete_phase :
    ((t.precmdPlan ++ t.downPlan).skipped.phase? .delete).getD []
      = t.remnants.map Remnant.removal := by
  have hphases : (t.precmdPlan ++ t.downPlan).map (·.1) = [.precmd, .delete, .postfini] := rfl
  have hmem : (.delete, t.delete) ∈ t.precmdPlan ++ t.downPlan :=
    List.mem_append_right _ (List.mem_cons_self ..)
  rw [Plan.commands_phase? _ (by rw [hphases]; decide) .delete t.delete hmem, delete_commands]

/-- a node that cannot be removed could not be created either -/
theorem delete_errors_subset (e : CompileError) (he : e ∈ t.delete.errors) :
    e ∈ t.createNodes.errors := by
  rw [Trace.mem_errors, delete, List.mem_append, List.mem_map] at he
  obtain ⟨n, hn, he⟩ | he := he
  · have hk : n.kind = .error e := by
      rw [Report.ofUnit_eq_fail] at he
      obtain ⟨kind, hk, _⟩ | ⟨e', hk, _⟩ := n.kind_cases
      · rw [hk] at he
        cases he
      · rw [hk] at he ⊢
        exact congrArg _ (Except.error.inj he)
    rw [Trace.mem_errors, createNodes, List.mem_map]
    refine ⟨n, hn, (Report.ofUnit_eq_fail _ e).mpr ?_⟩
    rw [hk]
    rfl
  · cases List.mem_singleton.mp he

/-- a topology that is brought up can be taken down -/
theorem down_eq_ok (o : CompileOptions) (s : Script) (hup : t.up o = .ok s) :
    t.down o = .ok (t.precmdPlan ++ t.downPlan).skipped := by
  rw [up] at hup
  rw [down]
  cases hpolicy : o.policy with
  | skip => exact Plan.script_skip _
  | abort =>
    rw [hpolicy] at hup
    -- nothing failed on the way up, so no node is of an unknown kind
    have hup := Plan.errors_nil_of_script_abort _ s hup
    refine Plan.script_eq_ok_of_errors_nil _ .abort (List.eq_nil_iff_forall_not_mem.mpr ?_)
    intro e he
    have hdelete : e ∈ t.delete.errors := by simpa [Plan.errors, precmdPlan, downPlan, Plan.hooks,
      Trace.errors] using he
    have hcreate : e ∈ (t.precmdPlan ++ t.upPlan o.handles).errors :=
      List.mem_flatMap.mpr ⟨(.createNodes, t.createNodes), by simp [upPlan],
        t.delete_errors_subset e hdelete⟩
    rw [hup] at hcreate
    cases hcreate

theorem node?_of_mem_nodeRemnants (name : String) (type : Option String) (m : Remnant)
    (hm : m ∈ nodeRemnants name type) : m.node? = some name := by
  rw [nodeRemnants] at hm
  split at hm
  · next kind _ =>
    have hkind : ∀ m ∈ kind.remnants name, m.node? = some name := by
      cases kind <;> simp [NodeKind.remnants, Remnant.node?]
    exact hkind m hm
  · cases hm

theorem nodeRemnants_nodup (name : String) (type : Option String) :
    (nodeRemnants name type).Nodup := by
  rw [nodeRemnants]
  split
  · next kind _ => cases kind <;> simp [NodeKind.remnants]
  · exact List.nodup_nil

theorem remnants_nodup (hvalid : t.validate = .ok ()) : t.remnants.Nodup := by
  have hnodes := List.pairwise_map.mp (t.nodup_node_names hvalid)
  have hswitches := List.pairwise_map.mp (t.nodup_switch_names hvalid)
  refine List.nodup_append.mpr ⟨List.nodup_flatMap.mpr ⟨fun n _ => ?_, ?_⟩, ?_, ?_⟩
  · exact nodeRemnants_nodup n.name n.type
  · -- a remnant tells the name of its node
    refine hnodes.imp fun hne m hm hm' => hne ?_
    rw [← Option.some.injEq, ← node?_of_mem_nodeRemnants _ _ m hm,
      node?_of_mem_nodeRemnants _ _ m hm']
  · exact List.pairwise_map.mpr (hswitches.imp fun hne h => hne (Remnant.bridge.inj h))
  · -- and a bridge belongs to none
    rintro m hm m' hm' rfl
    obtain ⟨n, _, hm⟩ := List.mem_flatMap.mp hm
    obtain ⟨s, _, rfl⟩ := List.mem_map.mp hm'
    cases node?_of_mem_nodeRemnants _ _ _ hm

theorem remnant_declared (m : Remnant) (hm : m ∈ t.remnants) : m.Declared t := by
  obtain hm | hm := List.mem_append.mp hm
  · obtain ⟨n, hn, hm⟩ := List.mem_flatMap.mp hm
    have hnode := node?_of_mem_nodeRemnants _ _ m hm
    cases m with
    | container | netns | handle => exact ⟨n, hn, (Option.some.inj hnode).symm⟩
    | bridge => cases hnode
  · obtain ⟨s, hs, rfl⟩ := List.mem_map.mp hm
    exact ⟨s, hs, rfl⟩

end

/-- **Teardown covers what `up` creates.**  If a well-formed topology can be brought up, it can be
taken down with the same options, and each container, namespace, handle and bridge that the one
script leaves behind is removed by exactly one command of the other.  What is removed goes by the
names and types of the nodes and the names of the switches alone, and all of it is declared. -/
theorem down_covers_up (t : Topology) (o : CompileOptions) (hvalid : t.validate = .ok ()) :
    (∀ s, t.up o = .ok s → ∃ s', t.down o = .ok s' ∧
      ∀ c ∈ s.generated, ∀ m, c.leaves? = some m →
        ((s'.phase? .delete).getD []).count m.removal = 1) ∧
    ∀ s', t.down o = .ok s' →
      (s'.phase? .delete).getD [] = t.remnants.map Remnant.removal ∧
      ∀ m ∈ t.remnants, m.Declared t := by
  constructor
  · intro s hup
    refine ⟨_, t.down_eq_ok o s hup, fun c hc m hm => ?_⟩
    have hs : s.generated = (t.upPlan o.handles).generated := by
      rw [Plan.eq_skipped_of_script_eq_ok _ _ s hup, Plan.generated_skipped, Plan.generated_append,
        t.generated_precmdPlan, List.nil_append]
    rw [hs] at hc
    have hmem := t.remnant_of_up o.handles c hc m hm
    rw [t.delete_phase, List.count_map_of_injective _ _ Remnant.removal_injective]
    exact List.count_eq_one_of_mem (t.remnants_nodup hvalid) hmem
  · intro s' hdown
    rw [Plan.eq_skipped_of_script_eq_ok _ _ s' hdown]
    exact ⟨t.delete_phase, t.remnant_declared⟩

/-- of a topology with a node that cannot be made, a container, a namespace and a switch -/
theorem down_covers_up_halfBuilt : HalfBuilt.topology.validate = .ok () ∧
    ∃ s s', HalfBuilt.topology.up ⟨.skip, .keep⟩ = .ok s ∧
      HalfBuilt.topology.down ⟨.skip, .keep⟩ = .ok s' ∧
      (s'.phase? .delete).getD []
        = [ .argv ["docker", "rm", "-f", "R1"], Netns.removeHandle "R1",
            .argv ["ip", "netns", "del", "C1"], Netns.removeHandle "C1",
            .argv ["ip", "link", "delete", "B0"] ] ∧
      ((s'.phase? .delete).getD []).count (.argv ["ip", "link", "delete", "B0"]) = 1 := by
  have hvalid : HalfBuilt.topology.validate = .ok () := by decide +kernel
  obtain ⟨hcovers, hphase⟩ := down_covers_up HalfBuilt.topology ⟨.skip, .keep⟩ hvalid
  have hup : HalfBuilt.topology.up ⟨.skip, .keep⟩ = .ok _ := Plan.script_skip _
  obtain ⟨s', hdown, hcount⟩ := hcovers _ hup
  refine ⟨hvalid, _, s', hup, hdown, (hphase s' hdown).1.trans (by decide +kernel), ?_⟩
  refine hcount (.argv ["ip", "link", "add", "B0", "type", "bridge"]) ?_ (.bridge "B0") rfl
  rw [Plan.generated_skipped, Plan.generated_append, generated_upPlan]
  exact List.mem_append_right _ (List.mem_append_left _ (List.mem_append_left _
    (List.mem_cons_self ..)))

end Topology

end Netlab
