import Netlab.Proofs.Host.Walk

/-!
# Blocks of commands that build

For each block of commands that a phase is put together from: where it runs, and what it makes for
the blocks that follow.  The handles being kept, none of them removes anything.

* `builds_bridgeCreate`, `builds_create`, `builds_mount`   switches, nodes, and their handles;
* `makes_netns`     a node that is created and mounted has a namespace;
* `builds_link`     the block of a link;
* `makes_ends`      a direct link makes both of its ends;
* `sweeps_nodeDelete`   what takes a node away.
-/

namespace Netlab

open Shell (Command)
open Host (Resource State Builds Makes Sweeps)

section
variable {granted : Resource → Prop} {h : State}

/-! ## switches and nodes -/

theorem builds_bridgeCreate (b : String) : Builds granted h (Bridge.create b) := by
  refine .cons (Host.effect?_bridgeAdd b) (List.forall_mem_nil _) ?_
  exact .cons (Host.effect?_hostLinkUp b) (by simp) (.nil _)

theorem makes_bridge (b : String) : Makes (Bridge.create b) (.bridge b) :=
  ⟨_, List.mem_cons_self .., _, Host.effect?_bridgeAdd b, List.mem_cons_self ..⟩

theorem builds_create (hlo : ∀ x, granted (.device (some x) "lo")) (n : Node) (kind : NodeKind)
    (cmds : List Command) (hcreate : n.create kind = .ok cmds) : Builds granted h cmds := by
  cases kind with
  | container =>
    obtain ⟨image, rfl⟩ := n.create_container cmds hcreate
    exact .cons (Host.effect?_run n image) (List.forall_mem_nil _) (.nil _)
  | netns =>
    obtain rfl := Except.ok.inj hcreate
    refine .cons (Host.effect?_netnsAdd n.name) (List.forall_mem_nil _) (.append ?_ ?_)
    · exact .map _ [.netns n.name] (Host.effect?_setSysctl n.name) (by simp) n.sysctls
    · exact .cons (Host.effect?_linkUp n.name "lo") (by simp [hlo]) (.nil _)

theorem builds_mount (kind : NodeKind) (n : String)
    (hcontainer : kind = .container → .container n ∈ h) : Builds granted h (kind.mount n) := by
  cases kind with
  | netns => exact .nil _
  | container =>
    have hc : .container n ∈ h := hcontainer rfl
    refine .cons (Host.effect?_mkdir _) (List.forall_mem_nil _) ?_
    refine .cons (Host.effect?_containerPid n) (by simp [hc]) ?_
    exact .cons (Host.effect?_link n) (by simp [hc]) (.nil _)

theorem makes_netns (n : Node) (kind : NodeKind) (cmds : List Command)
    (hcreate : n.create kind = .ok cmds) : Makes (cmds ++ kind.mount n.name) (.netns n.name) := by
  cases kind with
  | container =>
    refine ⟨_, List.mem_append_right _ ?_, _, Host.effect?_link n.name, List.mem_cons_self ..⟩
    simp [NodeKind.mount, Netns.mount]
  | netns =>
    obtain rfl := Except.ok.inj hcreate
    exact ⟨_, List.mem_cons_self .., _, Host.effect?_netnsAdd n.name, List.mem_cons_self ..⟩

theorem makes_container (n : Node) (cmds : List Command)
    (hcreate : n.create .container = .ok cmds) : Makes cmds (.container n.name) := by
  obtain ⟨image, rfl⟩ := n.create_container cmds hcreate
  exact ⟨_, List.mem_cons_self .., _, Host.effect?_run n image, List.mem_cons_self ..⟩

/-! ## links -/

theorem builds_address (n i : String) (addr : Option String) (hn : .netns n ∈ h)
    (hi : .device (some n) i ∈ h) : Builds granted h (Link.addressCommands n i addr) :=
  .map _ [.netns n, .device (some n) i] (Host.effect?_setAddress n i) (by simp [hn, hi]) addr.toList

/-- a device of the host moves into a namespace that keeps its handle, and gets its address -/
theorem builds_move (n : String) (kind : NodeKind) (d : String) (addr : Option String)
    (hn : .netns n ∈ h) (hd : .device none d ∈ h ∨ granted (.device none d)) :
    Builds granted h (Link.moveCommands n kind d .keep ++ Link.addressCommands n d addr) := by
  refine .cons (Host.effect?_move d n) (by simp [hn, hd]) ?_
  refine .cons (Host.effect?_linkUp n d) (by simp [hn]) ?_
  exact builds_address n d addr (by simp [hn]) (by simp)

/-- no address is lost as long as the handles are kept -/
theorem commands_keep (l : Link) (kind : NodeKind) (addr : Option String) :
    (if l.losesAddress kind .keep then none else addr) = addr := by
  rw [Link.losesAddress]
  simp [HandlePolicy.gives]

/-- The block of a link runs where the namespace of its node is there and, by the kind of link, the
one at the other end, the bridge, or the device. -/
theorem builds_link (l : Link) (n : String) (kind : NodeKind) (i : String) (addr : Option String)
    (hn : .netns n ∈ h)
    (hpeer : ∀ peer j, l = .direct peer j → .netns peer ∈ h ∨ granted (.netns peer))
    (hswitch : ∀ b, l = .bridge b → .bridge b ∈ h ∨ granted (.bridge b))
    (hphys : l = .phys → granted (.device none i)) :
    Builds granted h (l.commands n kind i addr .keep) := by
  have hkeep := commands_keep l kind addr
  cases l with
  | direct peer j =>
    have hp : .netns peer ∈ h ∨ granted (.netns peer) := hpeer peer j rfl
    rw [Link.commands, hkeep]
    refine .cons (Host.effect?_pairBetween i n j peer) (by simp [hn, hp]) ?_
    refine .cons (Host.effect?_linkUp n i) (by simp [hn]) ?_
    refine .cons (Host.effect?_linkUp peer j) (by simp [hp]) ?_
    exact builds_address n i addr (by simp [hn]) (by simp)
  | bridge b =>
    have hb : .bridge b ∈ h ∨ granted (.bridge b) := hswitch b rfl
    rw [Link.commands, hkeep]
    refine .cons (Host.effect?_pairInside i n _) (by simp [hn]) ?_
    refine .cons (Host.effect?_linkUp n i) (by simp [hn]) ?_
    refine .cons (Host.effect?_hostLinkUp _) (by simp) ?_
    refine .cons (Host.effect?_attach _ b) (by simp [hb]) ?_
    exact builds_address n i addr (by simp [hn]) (by simp)
  | veth peer =>
    rw [Link.commands, hkeep]
    -- the host end that stays is brought up last
    refine .cons (Host.effect?_vethCreate i peer) (List.forall_mem_nil _) ?_
    refine .append (builds_move n kind i addr (by simp [hn]) (by simp)) ?_
    exact .cons (Host.effect?_hostLinkUp peer) (by simp) (.nil _)
  | phys =>
    rw [Link.commands, hkeep]
    exact builds_move n kind i addr hn (Or.inr (hphys rfl))

theorem makes_ends (n peer : String) (kind : NodeKind) (i j : String) (addr : Option String)
    (handles : HandlePolicy) :
    Makes ((Link.direct peer j).commands n kind i addr handles) (.device (some n) i)
      ∧ Makes ((Link.direct peer j).commands n kind i addr handles) (.device (some peer) j) := by
  constructor
  · exact ⟨_, List.mem_cons_self .., _, Host.effect?_pairBetween i n j peer, by simp⟩
  · exact ⟨_, List.mem_cons_self .., _, Host.effect?_pairBetween i n j peer, by simp⟩

end

/-! ## removal -/

theorem sweeps_nodeDelete (kind : NodeKind) (n : String) : Sweeps (kind.delete n) := by
  intro c hc
  cases kind with
  | container =>
    simp only [NodeKind.delete, List.mem_cons, List.not_mem_nil, or_false] at hc
    obtain rfl | rfl := hc
    · exact ⟨_, Host.effect?_containerRemove n⟩
    · exact ⟨_, Host.effect?_removeHandle n⟩
  | netns =>
    simp only [NodeKind.delete, List.mem_cons, List.not_mem_nil, or_false] at hc
    obtain rfl | rfl := hc
    · exact ⟨_, Host.effect?_netnsDelete n⟩
    · exact ⟨_, Host.effect?_removeHandle n⟩

end Netlab
