import Netlab.Proofs.Host.Effect
import Netlab.Proofs.Phases
import Netlab.Proofs.Wiring.Block

/-!
# A node that cannot be created is isolated

Under `skip` a node whose creation fails is left out.  No later command works on it, neither its
own nor one of a link that another node declares, and every link into it is reported.

* `Shell.Command.NamesOnly`     the nodes that a command works on are among given ones;
* `namesOnly_link` and others   the nodes that the blocks of the phases work on;
* `Wires.stranded_mem`          a link into a node that cannot be created fails, whatever is wired;
* `stranded_mem_wireLinks`      so it fails wherever it stands;
* `reconf_isolates`             the property, of the whole script.
-/

namespace Netlab

open Shell (Command)

/-! ## the nodes a command works on -/

namespace Host

/-- the node that a resource belongs to -/
@[simp] def Resource.owner? : Resource → Option String
  | netns n => some n
  | container n => some n
  | bridge _ => none
  | device place _ => place

@[simp] def Effect.resources (e : Effect) : List Resource := e.needs ++ e.makes ++ e.drops

end Host

/-- the command is of a known form, and the nodes it works on satisfy `p` -/
def Shell.Command.NamesOnly (p : String → Prop) (c : Command) : Prop :=
  ∃ e, c.effect? = some e ∧ ∀ r ∈ e.resources, ∀ x, r.owner? = some x → p x

section
variable {p : String → Prop}

theorem namesOnly_mono {q : String → Prop} (hpq : ∀ x, p x → q x) (c : Command)
    (h : c.NamesOnly p) : c.NamesOnly q := by
  obtain ⟨e, he, hall⟩ := h
  exact ⟨e, he, fun r hr x hx => hpq x (hall r hr x hx)⟩

theorem namesOnly_bridgeCreate (b : String) : ∀ c ∈ Bridge.create b, c.NamesOnly p := by
  simp only [Bridge.create, List.forall_mem_cons]
  refine ⟨⟨_, Host.effect?_bridgeAdd b, ?_⟩, ⟨_, Host.effect?_hostLinkUp b, ?_⟩, ?_⟩
  · simp
  · simp
  · exact List.forall_mem_nil _

theorem namesOnly_linkUp (n d : String) (hn : p n) : (Netns.linkUp n d).NamesOnly p :=
  ⟨_, Host.effect?_linkUp n d, by simpa using hn⟩

theorem namesOnly_setAddress (n d addr : String) (hn : p n) :
    (Netns.setAddress n d addr).NamesOnly p :=
  ⟨_, Host.effect?_setAddress n d addr, by simpa using hn⟩

theorem namesOnly_hostLinkUp (d : String) : (Host.linkUp d).NamesOnly p :=
  ⟨_, Host.effect?_hostLinkUp d, by simp⟩

theorem namesOnly_create (n : Node) (kind : NodeKind) (cmds : List Command)
    (h : n.create kind = .ok cmds) (hn : p n.name) : ∀ c ∈ cmds, c.NamesOnly p := by
  cases kind with
  | container =>
    obtain ⟨image, rfl⟩ := n.create_container cmds h
    intro c hc
    obtain rfl := List.mem_singleton.mp hc
    exact ⟨_, Host.effect?_run n image, by simpa using hn⟩
  | netns =>
    obtain rfl := Except.ok.inj h
    simp only [List.cons_append, List.forall_mem_cons, List.forall_mem_append]
    refine ⟨⟨_, Host.effect?_netnsAdd n.name, ?_⟩, ?_, ?_⟩
    · simpa using hn
    · intro c hc
      obtain ⟨v, _, rfl⟩ := List.mem_map.mp hc
      exact ⟨_, Host.effect?_setSysctl n.name v, by simpa using hn⟩
    · exact ⟨namesOnly_linkUp n.name "lo" hn, List.forall_mem_nil _⟩

theorem namesOnly_mount (kind : NodeKind) (n : String) (hn : p n) :
    ∀ c ∈ kind.mount n, c.NamesOnly p := by
  cases kind with
  | netns => exact List.forall_mem_nil _
  | container =>
    simp only [NodeKind.mount, Netns.mount, List.forall_mem_cons]
    refine ⟨⟨_, Host.effect?_mkdir _, ?_⟩, ⟨_, Host.effect?_containerPid n, ?_⟩,
      ⟨_, Host.effect?_link n, ?_⟩, List.forall_mem_nil _⟩
    · simp
    · simpa using hn
    · simpa using hn

theorem namesOnly_exec (kind : NodeKind) (n line : String) (hn : p n) :
    (kind.exec n line).NamesOnly p := by
  refine ⟨_, Host.effect?_exec kind n line, ?_⟩
  cases kind <;> simpa using hn

theorem namesOnly_address (n i : String) (addr : Option String) (hn : p n) :
    ∀ c ∈ Link.addressCommands n i addr, c.NamesOnly p := by
  intro c hc
  obtain ⟨a, rfl⟩ := Link.exists_of_mem_address n i addr c hc
  exact namesOnly_setAddress n i a hn

/-- a link works on the node that it belongs to and, if direct, on the one at its other end -/
theorem namesOnly_link (l : Link) (n : String) (kind : NodeKind) (i : String)
    (addr : Option String) (handles : HandlePolicy) (hn : p n)
    (hpeer : ∀ peer peerInterface, l = .direct peer peerInterface → p peer) :
    ∀ c ∈ l.commands n kind i addr handles, c.NamesOnly p := by
  intro c hc
  obtain hc | hc | ⟨a, rfl⟩ := l.mem_commands n kind i addr handles c hc
  · cases l with
    | direct peer peerInterface =>
      have hp : p peer := hpeer peer peerInterface rfl
      obtain rfl := List.mem_singleton.mp hc
      exact ⟨_, Host.effect?_pairBetween i n peerInterface peer, by simp [hn, hp]⟩
    | bridge switch =>
      rw [Link.pairCommands, List.mem_cons, List.mem_singleton] at hc
      obtain rfl | rfl := hc
      · exact ⟨_, Host.effect?_pairInside i n _, by simp [hn]⟩
      · exact ⟨_, Host.effect?_attach _ switch, by simp⟩
    | veth peer =>
      obtain rfl := List.mem_singleton.mp hc
      exact ⟨_, Host.effect?_vethCreate i peer, by simp⟩
    | phys => cases hc
  · cases hc with
    | up => exact namesOnly_linkUp n i hn
    | peerUp peer j hl => exact namesOnly_linkUp peer j (hpeer peer j hl)
    | hostUp d => exact namesOnly_hostLinkUp d
    | move => exact ⟨_, Host.effect?_move i n, by simpa using hn⟩
    | release => exact ⟨_, Host.effect?_netnsDelete n, by simpa using hn⟩
  · exact namesOnly_setAddress n i a hn

end

/-! ## the nodes a script works on -/

namespace Topology

/-- A link into a node that cannot be created fails whatever is wired already: no key that is known
has such an end. -/
theorem Wires.stranded_mem {t : Topology} {handles : HandlePolicy} {w w' : Wired} {m : Node}
    {kind : NodeKind} {i : Interface} {trace : Trace}
    (hstep : t.Wires handles w (.live m kind i) trace w') (hsound : t.UsableEnds w)
    {peer peerInterface : String} (hlink : Link.parse m.name i = .ok (.direct peer peerInterface))
    (hpeer : ¬ t.Usable peer) : .fail (.uncreatablePeer m.name i.name peer) ∈ trace := by
  cases hstep with
  | unreadable _ _ _ e he =>
    rw [hlink] at he
    cases he
  | repeated _ _ _ peer' peerInterface' hl hkey =>
    rw [hlink] at hl
    obtain ⟨rfl, rfl⟩ := Link.direct.inj (Except.ok.inj hl)
    have hends := hsound _ hkey
    rw [Endpoint.pair_forall (fun e => t.Usable e.node)] at hends
    exact absurd hends.2 hpeer
  | stranded _ _ _ peer' peerInterface' hl =>
    rw [hlink] at hl
    obtain ⟨rfl, rfl⟩ := Link.direct.inj (Except.ok.inj hl)
    exact List.mem_singleton_self _
  | taken _ _ _ switch hl =>
    rw [hlink] at hl
    cases hl
  | made _ _ _ l hl hfree =>
    rw [hlink] at hl
    obtain rfl := Except.ok.inj hl
    exact absurd hfree.2 hpeer

section
variable (t : Topology) (h : t.validate = .ok ())
include h

theorem namesOnly_createNodes : ∀ c ∈ t.createNodes.commands, c.NamesOnly t.Usable := by
  intro c hc
  obtain ⟨cmds, hcmds, hc⟩ := (Trace.mem_commands _ c).mp hc
  obtain ⟨n, hn, kind, hk, hcreate⟩ := (t.emit_mem_createNodes cmds).mp hcmds
  exact namesOnly_create n kind cmds hcreate (t.usable_of_creatable h n hn kind hk) c hc

theorem namesOnly_mountNetns : ∀ c ∈ t.mountNetns.commands, c.NamesOnly t.Usable := by
  intro c hc
  obtain ⟨cmds, hcmds, hc⟩ := (Trace.mem_commands _ c).mp hc
  obtain ⟨n, hn, kind, hk, rfl⟩ := (t.emit_mem_mountNetns cmds).mp hcmds
  exact namesOnly_mount kind n.name (t.usable_of_creatable h n hn kind hk) c hc

theorem namesOnly_wireLinks (handles : HandlePolicy) :
    ∀ c ∈ (t.wireLinks handles).commands, c.NamesOnly t.Usable := by
  intro c hc
  obtain ⟨cmds, hcmds, hc⟩ := (Trace.mem_commands _ c).mp hc
  obtain ⟨n, hn, kind, hk, i, _, hblock⟩ := t.emit_mem_wireLinks cmds handles hcmds
  have hu : t.Usable n.name := t.usable_of_creatable h n hn kind hk
  obtain rfl | ⟨l, _, rfl, hpeer⟩ := hblock
  · exact namesOnly_address n.name i.name i.addr hu c hc
  · exact namesOnly_link l n.name kind i.name i.addr handles hu hpeer c hc

theorem namesOnly_configure : ∀ c ∈ t.configure.commands, c.NamesOnly t.Usable := by
  intro c hc
  obtain ⟨cmds, hcmds, hc⟩ := (Trace.mem_commands _ c).mp hc
  obtain ⟨config, _, n, hfind, kind, hk, rfl⟩ := (t.emit_mem_configure cmds).mp hcmds
  obtain ⟨line, _, rfl⟩ := List.mem_map.mp hc
  have hn : n ∈ t.nodes := t.node?_mem config.name n hfind
  exact namesOnly_exec kind n.name line (t.usable_of_creatable h n hn kind hk)

theorem stranded_mem_wireLinks (handles : HandlePolicy) (m : Node) (hm : m ∈ t.nodes)
    (kind : NodeKind) (hk : m.creatable = .ok kind) (i : Interface) (hi : i ∈ m.interfaces)
    (peer peerInterface : String) (hlink : Link.parse m.name i = .ok (.direct peer peerInterface))
    (hpeer : ¬ t.Usable peer) :
    .fail (.uncreatablePeer m.name i.name peer) ∈ t.wireLinks handles := by
  obtain ⟨before, after, hss⟩ := List.append_of_mem ((t.mem_sites_live m kind i).mpr ⟨hm, hk, hi⟩)
  have hsound : t.UsableEnds (t.wiredAfter handles {} before) :=
    t.usable_wired h handles before fun s hs => by rw [hss]; exact List.mem_append_left _ hs
  have hstep := t.wires_wireSite handles (t.wiredAfter handles {} before) (.live m kind i)
  rw [wireLinks, mem_wireSites]
  exact ⟨before, _, after, hss, hstep.stranded_mem hsound hlink hpeer⟩

/-- the generated phases of a whole script, the removal left out -/
theorem namesOnly_reconf (handles : HandlePolicy) (phase : Phase) (trace : Trace)
    (hp : (phase, trace) ∈ t.precmdPlan ++ t.downPlan ++ t.upPlan handles ++ t.confPlan)
    (hhook : phase.isHook = false) (hdelete : phase ≠ .delete) :
    ∀ c ∈ trace.commands, c.NamesOnly t.Usable := by
  simp only [precmdPlan, downPlan, upPlan, confPlan, Plan.hooks, List.mem_append, List.mem_cons,
    List.not_mem_nil, or_false, Prod.mk.injEq] at hp
  obtain ((hp | hp | hp) | (hp | hp | hp | hp | hp) | hp) | hp := hp <;> obtain ⟨rfl, rfl⟩ := hp
  · cases hhook
  · exact absurd rfl hdelete
  · cases hhook
  · cases hhook
  · intro c hc
    rw [Trace.mem_commands] at hc
    obtain ⟨cmds, hcmds, hc⟩ := hc
    obtain rfl := Report.emit.inj (List.mem_singleton.mp hcmds)
    obtain ⟨switch, _, hc⟩ := List.mem_flatMap.mp hc
    exact namesOnly_bridgeCreate switch.name c hc
  · exact t.namesOnly_createNodes h
  · exact t.namesOnly_mountNetns h
  · exact t.namesOnly_wireLinks h handles
  · cases hhook
  · exact t.namesOnly_configure h

end

/-- **A node that cannot be created is isolated.**  In the script that removes everything, brings it
up again and configures it, no command that is generated after the removal works on the node, and
every direct link into it from a node that can be created is reported with its interface. -/
theorem reconf_isolates (t : Topology) (h : t.validate = .ok ()) (handles : HandlePolicy) (n : Node)
    (hn : n ∈ t.nodes) (e : CompileError) (he : (do n.create (← n.kind)) = .error e) :
    ∃ s, t.reconf ⟨.skip, handles⟩ = .ok s ∧
      (∀ sec ∈ s.sections, sec.phase.isHook = false → sec.phase ≠ .delete →
        ∀ c ∈ sec.commands, c.NamesOnly (· ≠ n.name)) ∧
      (∀ m ∈ t.nodes, ∀ kind, m.creatable = .ok kind → ∀ i ∈ m.interfaces, ∀ peerInterface,
        Link.parse m.name i = .ok (.direct n.name peerInterface) →
          .skipped (.uncreatablePeer m.name i.name n.name) ∈ s.diagnostics.toList) := by
  have hnot : ¬ t.Usable n.name :=
    t.not_usable_of_not_creatable h n hn e ((n.creation_eq_error e).mp he)
  refine ⟨_, Plan.script_skip _, ?_, ?_⟩
  · intro sec hsec hhook hdelete c hc
    obtain ⟨trace, hp, hcmds⟩ := Plan.mem_sections _ sec hsec
    rw [hcmds] at hc
    refine namesOnly_mono (fun x hx heq => ?_) c
      (t.namesOnly_reconf h handles sec.phase trace hp hhook hdelete c hc)
    rw [heq] at hx
    exact hnot hx
  · intro m hm kind hk i hi peerInterface hlink
    refine Plan.mem_diagnostics _ .wireLinks (t.wireLinks handles) ?_ _
      (Trace.mem_diagnostics_of_fail _ _ ?_)
    · simp [upPlan]
    · exact t.stranded_mem_wireLinks h handles m hm kind hk i hi n.name peerInterface hlink hnot

theorem reconf_isolates_machine : HalfBuilt.topology.validate = .ok () ∧
    HalfBuilt.machine ∈ HalfBuilt.topology.nodes ∧
    HalfBuilt.machine.creatable = .error (.unsupportedNodeKind "V1" "vm") ∧
    ∃ s, HalfBuilt.topology.reconf ⟨.skip, .keep⟩ = .ok s ∧
      (∀ sec ∈ s.sections, sec.phase.isHook = false → sec.phase ≠ .delete →
        ∀ c ∈ sec.commands, c.NamesOnly (· ≠ "V1")) ∧
      .skipped (.uncreatablePeer "R1" "net0" "V1") ∈ s.diagnostics.toList := by
  have hvalid : HalfBuilt.topology.validate = .ok () := by decide +kernel
  have hm : HalfBuilt.machine ∈ HalfBuilt.topology.nodes := List.mem_cons_self ..
  have hr : HalfBuilt.router ∈ HalfBuilt.topology.nodes :=
    List.mem_cons_of_mem _ (List.mem_cons_self ..)
  have hi : { name := "net0", type := "direct", args := some "V1#net0" }
      ∈ HalfBuilt.router.interfaces := List.mem_cons_self ..
  obtain ⟨s, hs, hisolated, hstranded⟩ := reconf_isolates HalfBuilt.topology hvalid .keep
    HalfBuilt.machine hm (.unsupportedNodeKind "V1" "vm") rfl
  have hskipped := hstranded HalfBuilt.router hr .container rfl _ hi "net0" rfl
  exact ⟨hvalid, hm, rfl, s, hs, hisolated, hskipped⟩

end Topology

end Netlab
