import Netlab.Proofs.Host.Devices

/-!
# What the commands of a link leave behind

The commands that wire one link, on a host where the node is in reach and the names that they take
are free.  All of them succeed, and what is there afterwards is known of every device.

* `Net.execAll?_join`      a veth pair made and both of its ends raised;
* `Net.execAll?_migrate`   a device moved into a node, with its address, and the handle given up;
* `Link.commands_realise`  the property, for every link.
-/

namespace Netlab

open Shell (Command)

theorem HandlePolicy.gives_eq_true_iff (kind : NodeKind) (policy : HandlePolicy) :
    policy.gives kind = true ↔ kind = .container ∧ policy = .release := by
  rw [gives, Bool.and_eq_true, beq_iff_eq, beq_iff_eq, and_comm]

namespace Link

/-! ## what a link needs and what it leaves -/

/-- the names that the wiring of a link takes -/
def claims (node interface : String) : Link → List Port
  | direct peer peerInterface => [⟨some node, interface⟩, ⟨some peer, peerInterface⟩]
  | bridge switch => [⟨some node, interface⟩, ⟨none, hostEnd switch node⟩]
  | veth peer => [⟨some node, interface⟩, ⟨none, interface⟩, ⟨none, peer⟩]
  | phys => [⟨some node, interface⟩]

/-- what is to be there for a link, besides the node itself -/
def Grounded (h : Net) (interface : String) : Link → Prop
  | direct peer _ => peer ∈ h.handles
  | bridge switch => (h.device ⟨none, switch⟩).isSome
  | veth _ => True
  | phys => (h.device ⟨none, interface⟩).isSome

/-- the host is ready for a link -/
structure Ready (l : Link) (h : Net) (node interface : String) : Prop where
  reached : node ∈ h.handles
  grounded : l.Grounded h interface
  free : ∀ p ∈ l.claims node interface, h.device p = none
  distinct : (l.claims node interface).Nodup

/-- where the other end of a link is; a device of the host has none -/
def farEnd? (node : String) : Link → Option Port
  | direct peer peerInterface => some ⟨some peer, peerInterface⟩
  | bridge switch => some ⟨none, hostEnd switch node⟩
  | veth peer => some ⟨none, peer⟩
  | phys => none

/-- the bridge that the other end of a link is a member of -/
def master? : Link → Option String
  | bridge switch => some switch
  | _ => none

/-- the address that the local end has before it is given one: that of a device of the host is its
own, a new device has none -/
def ownAddress? (h : Net) (interface : String) : Link → Option String
  | phys => (h.device ⟨none, interface⟩).bind (·.address)
  | _ => none

/-- whether the handle of a node is gone once a link of it is wired -/
def GivesUp (l : Link) (kind : NodeKind) (policy : HandlePolicy) : Prop :=
  kind = .container ∧ policy = .release ∧ l.moves = true

instance (l : Link) (kind : NodeKind) (policy : HandlePolicy) : Decidable (l.GivesUp kind policy) :=
  inferInstanceAs (Decidable (_ ∧ _))

/-- what is there behind the wiring of a link, told for every handle and every device -/
structure Realised (l : Link) (node : String) (kind : NodeKind) (interface : String)
    (addr : Option String) (policy : HandlePolicy) (h h' : Net) : Prop where
  handles : h'.handles = if l.GivesUp kind policy then h.handles.erase node else h.handles
  /-- the local end is in the node and up, with the address unless the handle was given up -/
  near : h'.device ⟨some node, interface⟩ = some
    { up := true
      address := if l.GivesUp kind policy then l.ownAddress? h interface
        else addr.or (l.ownAddress? h interface) }
  far : ∀ p ∈ l.farEnd? node, h'.device p = some { up := true, master := l.master? }
  /-- a device that moved is on the host no more -/
  moved : l.moves = true → h'.device ⟨none, interface⟩ = none
  /-- nothing else changes -/
  frame : ∀ p, p ≠ ⟨some node, interface⟩ → p ∉ l.farEnd? node →
    (l.moves = true → p ≠ ⟨none, interface⟩) → h'.device p = h.device p

theorem losesAddress_eq_true_iff (l : Link) (kind : NodeKind) (policy : HandlePolicy) :
    l.losesAddress kind policy = true ↔ l.GivesUp kind policy := by
  rw [losesAddress, Bool.and_eq_true, HandlePolicy.gives_eq_true_iff, GivesUp, and_comm, and_assoc]

theorem not_givesUp (l : Link) (kind : NodeKind) (policy : HandlePolicy) (hl : l.moves = false) :
    ¬ l.GivesUp kind policy := fun h => absurd h.2.2 (by rw [hl]; exact Bool.false_ne_true)

end Link

/-! ## blocks of commands -/

namespace Net
variable {h : Net}

theorem put_comm {p q : Port} (hpq : p ≠ q) (d e : Option Device) :
    (h.put p d).put q e = (h.put q e).put p d := by
  simp only [put, Function.update_comm hpq]

theorem execAll?_singleton {h' : Net} {c : Command} (hc : h.exec? c = some h') :
    h.execAll? [c] = some h' := execAll?_cons [] hc

theorem execAll?_address {n i : String} {d : Device} (addr : Option String)
    (hd : h.device ⟨some n, i⟩ = some d) (hn : n ∈ h.handles) :
    h.execAll? (Link.addressCommands n i addr)
      = some (h.put ⟨some n, i⟩ (some { d with address := addr.or d.address })) := by
  cases addr with
  | none => exact congrArg some (put_same _ _ hd).symm
  | some a =>
    exact execAll?_singleton (exec?_address (change?_setAddress n i a) hd (reaches_netns n i hn))

/-- a veth pair is made and both ends come up -/
theorem execAll?_join {c raiseA raiseB : Command} {a b : Port}
    (hc : c.change? = some (.pair a b)) (hra : raiseA.change? = some (.raise a))
    (hrb : raiseB.change? = some (.raise b)) (ha : h.Reaches a) (hb : h.Reaches b) (hab : a ≠ b)
    (hfa : h.device a = none) (hfb : h.device b = none) :
    h.execAll? [c, raiseA, raiseB]
      = some ((h.put a (some { up := true })).put b (some { up := true })) := by
  have hda : ((h.put a (some {})).put b (some {})).device a = some {} := by
    rw [put_device_of_ne b a _ hab, put_device_self]
  have hup : ((h.put a (some {})).put b (some {})).put a (some { up := true })
      = (h.put a (some { up := true })).put b (some {}) := by
    rw [put_comm hab, put_put, put_comm hab.symm]
  have hdb : ((h.put a (some { up := true })).put b (some {})).device b = some {} :=
    put_device_self ..
  rw [execAll?_cons _ (exec?_pair hc ha hb hab hfa hfb), execAll?_cons _ (exec?_raise hra hda ha),
    hup, execAll?_singleton (exec?_raise hrb hdb hb), put_put]

/-- the near end of a pair gets its address -/
theorem execAll?_address_put {n i : String} {d e : Device} {b : Port} (addr : Option String)
    (hn : n ∈ h.handles) (hab : ⟨some n, i⟩ ≠ b) :
    ((h.put ⟨some n, i⟩ (some d)).put b (some e)).execAll? (Link.addressCommands n i addr)
      = some ((h.put ⟨some n, i⟩ (some { d with address := addr.or d.address })).put b
          (some e)) := by
  have hd : ((h.put ⟨some n, i⟩ (some d)).put b (some e)).device ⟨some n, i⟩ = some d := by
    rw [put_device_of_ne _ _ _ hab, put_device_self]
  rw [execAll?_address addr hd hn, put_comm hab, put_put, put_comm hab.symm]

/-- a pair of devices that is new and not up yet -/
theorem exec?_new_pair {c : Command} {a b : Port} (hc : c.change? = some (.pair a b))
    (ha : h.Reaches a) (hb : h.Reaches b) (hab : a ≠ b) (hfa : h.device a = none)
    (hfb : h.device b = none) :
    ∃ g, h.exec? c = some g ∧ g.handles = h.handles ∧ g.device a = some {} ∧ g.device b = some {}
      ∧ ∀ p, p ≠ a → p ≠ b → g.device p = h.device p := by
  refine ⟨_, exec?_pair hc ha hb hab hfa hfb, rfl, ?_, put_device_self _ _, fun p hpa hpb => ?_⟩
  · rw [put_device_of_ne _ _ _ hab, put_device_self]
  · rw [put_device_of_ne _ _ _ hpb, put_device_of_ne _ _ _ hpa]

/-- a device that left the host for a namespace -/
def moved (h : Net) (n i : String) (d : Device) : Net :=
  (h.put ⟨none, i⟩ none).put ⟨some n, i⟩ (some d)

section
variable (h) (n i : String) (d : Device)

theorem moved_near : (h.moved n i d).device ⟨some n, i⟩ = some d := put_device_self _ _

theorem moved_left : (h.moved n i d).device ⟨none, i⟩ = none := by
  rw [moved, put_device_of_ne _ _ _ (by simp), put_device_self]

theorem moved_other (p : Port) (hp : p ≠ ⟨some n, i⟩) (hp' : p ≠ ⟨none, i⟩) :
    (h.moved n i d).device p = h.device p := by
  rw [moved, put_device_of_ne _ _ _ hp, put_device_of_ne _ _ _ hp']

end

/-- A device of the host moves into a node.  It gets its address while the handle is there, or the
handle goes and the device keeps the address that it has. -/
theorem execAll?_migrate {n i : String} {d : Device} (l : Link) (hl : l.moves = true)
    (kind : NodeKind) (addr : Option String) (policy : HandlePolicy)
    (hd : h.device ⟨none, i⟩ = some d) (hfree : h.device ⟨some n, i⟩ = none) (hn : n ∈ h.handles) :
    ∃ g, h.execAll? (Link.moveCommands n kind i policy
        ++ Link.addressCommands n i (if l.losesAddress kind policy then none else addr)) = some g
      ∧ g.handles = (if l.GivesUp kind policy then h.handles.erase n else h.handles)
      ∧ g.device ⟨some n, i⟩ = some
          { up := true
            address := if l.GivesUp kind policy then d.address else addr.or d.address }
      ∧ g.device ⟨none, i⟩ = none
      ∧ ∀ p, p ≠ ⟨some n, i⟩ → p ≠ ⟨none, i⟩ → g.device p = h.device p := by
  have hmove : h.execAll? [.argv ["ip", "link", "set", "dev", i, "netns", n], Netns.linkUp n i]
      = some (h.moved n i { up := true, address := d.address }) := by
    rw [execAll?_cons _ (exec?_move (change?_move i n) hn hfree hd)]
    refine (execAll?_singleton (exec?_raise (change?_linkUp n i) (h.moved_near n i _)
      (reaches_netns n i hn))).trans ?_
    rw [moved, put_put]
    rfl
  have hgives : policy.gives kind = l.losesAddress kind policy := by
    rw [Link.losesAddress, hl, Bool.true_and]
  have hleft := h.moved_left n i { up := true, address := d.address }
  have hother := h.moved_other n i { up := true, address := d.address }
  rw [Link.moveCommands, List.append_assoc, execAll?_append _ _ hmove, hgives]
  simp only [l.losesAddress_eq_true_iff]
  by_cases hup : l.GivesUp kind policy
  · simp only [if_pos hup]
    exact ⟨_, execAll?_singleton (exec?_release (change?_delete n) hn), rfl,
      h.moved_near n i { up := true, address := d.address }, hleft, hother⟩
  · simp only [if_neg hup]
    refine ⟨_, execAll?_address addr (h.moved_near n i _) hn, rfl, put_device_self _ _, ?_, ?_⟩
    · rw [put_device_of_ne _ _ _ (by simp), hleft]
    · intro p hp hp'
      rw [put_device_of_ne _ _ _ hp, hother p hp hp']

end Net

/-! ## every link -/

namespace Link

section
variable {h : Net} {node interface : String} (kind : NodeKind) (addr : Option String)
  (policy : HandlePolicy)

/-- a link that is a new pair, whose ends stay where they are made -/
theorem realised_of_pair (l : Link) (hl : l.moves = false) {b : Port}
    (hb : l.farEnd? node = some b) (hab : b ≠ ⟨some node, interface⟩)
    (hown : l.ownAddress? h interface = none) :
    l.Realised node kind interface addr policy h
      ((h.put ⟨some node, interface⟩ (some { up := true, address := addr })).put b
        (some { up := true, master := l.master? })) where
  handles := (if_neg (l.not_givesUp kind policy hl)).symm
  near := by
    rw [if_neg (l.not_givesUp kind policy hl), hown, Option.or_none,
      Net.put_device_of_ne _ _ _ hab.symm, Net.put_device_self]
  far p hp := by
    obtain rfl := Option.some.inj (hb.symm.trans hp)
    exact Net.put_device_self _ _
  moved h := by rw [hl] at h; cases h
  frame p hnear hfar _ := by
    rw [hb, Option.mem_some_iff] at hfar
    rw [Net.put_device_of_ne _ _ _ (Ne.symm hfar), Net.put_device_of_ne _ _ _ hnear]

theorem pair_free {a b : Port} (hfree : ∀ p ∈ [a, b], h.device p = none)
    (hdistinct : [a, b].Nodup) : a ≠ b ∧ h.device a = none ∧ h.device b = none := by
  refine ⟨?_, hfree a (List.mem_cons_self ..), hfree b (by simp)⟩
  rintro rfl
  exact List.not_nodup_pair a hdistinct

theorem direct_realise (peer peerInterface : String)
    (hready : (direct peer peerInterface).Ready h node interface) :
    ∃ h', h.execAll? ((direct peer peerInterface).commands node kind interface addr policy)
        = some h'
      ∧ (direct peer peerInterface).Realised node kind interface addr policy h h' := by
  obtain ⟨hn, hpeer, hfree, hdistinct⟩ := hready
  obtain ⟨hab, hfa, hfb⟩ := pair_free hfree hdistinct
  refine ⟨_, ?_, realised_of_pair kind addr policy _ rfl rfl hab.symm rfl⟩
  have hjoin := Net.execAll?_join (Net.change?_pairBetween interface node peerInterface peer)
    (Net.change?_linkUp node interface) (Net.change?_linkUp peer peerInterface)
    (Net.reaches_netns _ _ hn) (Net.reaches_netns _ _ hpeer) hab hfa hfb
  show h.execAll? (directCommands node interface peer peerInterface
    ++ addressCommands node interface addr) = _
  rw [directCommands, Net.execAll?_append _ _ hjoin, Net.execAll?_address_put addr hn hab,
    Option.or_none]
  rfl

theorem bridge_realise (switch : String) (hready : (bridge switch).Ready h node interface) :
    ∃ h', h.execAll? ((bridge switch).commands node kind interface addr policy) = some h'
      ∧ (bridge switch).Realised node kind interface addr policy h h' := by
  obtain ⟨hn, hswitch, hfree, hdistinct⟩ := hready
  obtain ⟨hab, hfa, hfb⟩ := pair_free hfree hdistinct
  refine ⟨_, ?_, realised_of_pair kind addr policy _ rfl rfl hab.symm rfl⟩
  have hjoin := Net.execAll?_join (Net.change?_pairInside interface node (hostEnd switch node))
    (Net.change?_linkUp node interface) (Net.change?_hostLinkUp (hostEnd switch node))
    (Net.reaches_netns _ _ hn) (Net.reaches_host _) hab hfa hfb
  -- the bridge is neither of the two new devices
  have hnear : (⟨none, switch⟩ : Port) ≠ ⟨some node, interface⟩ := by simp
  have hfar : (⟨none, switch⟩ : Port) ≠ ⟨none, hostEnd switch node⟩ := by
    intro heq
    rw [Grounded, heq, hfb] at hswitch
    cases hswitch
  have hthere : (((h.put ⟨some node, interface⟩ (some { up := true })).put
      ⟨none, hostEnd switch node⟩ (some { up := true })).device ⟨none, switch⟩).isSome := by
    rw [Net.put_device_of_ne _ _ _ hfar, Net.put_device_of_ne _ _ _ hnear]
    exact hswitch
  show h.execAll? ([_, _, _] ++ (Bridge.attach (hostEnd switch node) switch
    :: addressCommands node interface addr)) = _
  rw [Net.execAll?_append _ _ hjoin, Net.execAll?_cons _ (Net.exec?_attach
    (Net.change?_attach (hostEnd switch node) switch) hthere (Net.put_device_self ..)), Net.put_put,
    Net.execAll?_address_put addr hn hab, Option.or_none]
  rfl

theorem phys_realise (hready : phys.Ready h node interface) :
    ∃ h', h.execAll? (phys.commands node kind interface addr policy) = some h'
      ∧ phys.Realised node kind interface addr policy h h' := by
  obtain ⟨hn, hdevice, hfree, -⟩ := hready
  obtain ⟨d, hd⟩ := Option.isSome_iff_exists.mp hdevice
  obtain ⟨g, hg, hhandles, hnear, hleft, hother⟩ :=
    Net.execAll?_migrate phys rfl kind addr policy hd (hfree _ (List.mem_cons_self ..)) hn
  refine ⟨g, hg, hhandles, ?_, fun p hp => ?_, fun _ => hleft, fun p hp _ hne => ?_⟩
  · rw [hnear, ownAddress?, hd]
    rfl
  · cases hp
  · exact hother p hp (hne rfl)

theorem veth_realise (peer : String) (hready : (veth peer).Ready h node interface) :
    ∃ h', h.execAll? ((veth peer).commands node kind interface addr policy) = some h'
      ∧ (veth peer).Realised node kind interface addr policy h h' := by
  obtain ⟨hn, -, hfree, hdistinct⟩ := hready
  obtain ⟨hgap, hfree⟩ := List.forall_mem_cons.mp hfree
  obtain ⟨hab, hfa, hfb⟩ := pair_free hfree (List.nodup_cons.mp hdistinct).2
  have hfar : (⟨none, peer⟩ : Port) ≠ ⟨some node, interface⟩ := by simp
  have hleft : (⟨some node, interface⟩ : Port) ≠ ⟨none, interface⟩ := by simp
  -- the pair is made on the host, one end of it moves, and the other one comes up
  obtain ⟨g, hg, hhandles, hga, hgb, hgother⟩ := Net.exec?_new_pair
    (Net.change?_vethCreate interface peer) (Net.reaches_host _) (Net.reaches_host _) hab hfa hfb
  obtain ⟨k, hk, hkhandles, hnear, hkleft, hkother⟩ := Net.execAll?_migrate (veth peer) rfl kind
    addr policy hga ((hgother _ hleft hfar.symm).trans hgap) (hhandles.symm ▸ hn)
  have hkpeer : k.device ⟨none, peer⟩ = some {} := (hkother _ hfar hab.symm).trans hgb
  have hraise := Net.exec?_raise (Net.change?_hostLinkUp peer) hkpeer (Net.reaches_host peer)
  refine ⟨k.put ⟨none, peer⟩ (some { up := true }), ?_, ?_, ?_, fun p hp => ?_, fun _ => ?_,
    fun p hp hpfar hne => ?_⟩
  · show h.execAll? (vethCreate interface peer :: (moveCommands node kind interface policy ++ _)
      ++ [Host.linkUp peer]) = _
    rw [List.cons_append, Net.execAll?_cons _ hg, Net.execAll?_append _ _ hk]
    exact Net.execAll?_singleton hraise
  · rw [Net.put_handles, hkhandles, hhandles]
  · rw [Net.put_device_of_ne _ _ _ hfar.symm, hnear]
    rfl
  · obtain rfl := Option.some.inj hp
    exact Net.put_device_self ..
  · rw [Net.put_device_of_ne _ _ _ hab, hkleft]
  · have hpeer : p ≠ ⟨none, peer⟩ := fun heq => hpfar (heq ▸ rfl)
    rw [Net.put_device_of_ne _ _ _ hpeer, hkother p hp (hne rfl), hgother p (hne rfl) hpeer]

/-- **A link is realised.**  Where a host is ready for a link, every command of the link succeeds.
Behind them the local end is in the node and up, and it has the address that it is given, except
where the handle of a container is given up for a device that moves.  The other end is up where it
belongs, and only that of a bridge link is a member of the bridge.  No other handle and no other
device changes. -/
theorem commands_realise (l : Link) (h : Net) (node interface : String) (kind : NodeKind)
    (addr : Option String) (policy : HandlePolicy) (hready : l.Ready h node interface) :
    ∃ h', h.execAll? (l.commands node kind interface addr policy) = some h'
      ∧ l.Realised node kind interface addr policy h h' := by
  cases l with
  | direct peer peerInterface => exact direct_realise kind addr policy peer peerInterface hready
  | bridge switch => exact bridge_realise kind addr policy switch hready
  | veth peer => exact veth_realise kind addr policy peer hready
  | phys => exact phys_realise kind addr policy hready

end

namespace Rack

/-- a host with a bridge, a device that has an address of its own, and two namespaces -/
def host : Net where
  handles := {"R1", "R2"}
  device p :=
    if p = ⟨none, "B0"⟩ then some { up := true }
    else if p = ⟨none, "enp1s0"⟩ then some { address := some "02:00:00:00:00:0a" }
    else none

theorem ready_phys : phys.Ready host "R1" "enp1s0" where
  reached := by decide
  grounded := rfl
  free := by decide
  distinct := by decide

theorem ready_bridge : (bridge "B0").Ready host "R1" "net0" where
  reached := by decide
  grounded := rfl
  free := by decide
  distinct := by decide

end Rack

theorem commands_realise_rack :
    (phys.Ready Rack.host "R1" "enp1s0" ∧
      ∃ h', Rack.host.execAll?
          (phys.commands "R1" .container "enp1s0" (some "02:00:00:00:00:01") .release) = some h' ∧
        h'.handles = {"R2"} ∧
        h'.device ⟨some "R1", "enp1s0"⟩
          = some { up := true, address := some "02:00:00:00:00:0a" } ∧
        h'.device ⟨none, "enp1s0"⟩ = none) ∧
    (bridge "B0").Ready Rack.host "R1" "net0" ∧
      ∃ h', Rack.host.execAll?
          ((bridge "B0").commands "R1" .container "net0" (some "02:00:00:00:00:01") .release)
          = some h' ∧
        h'.handles = {"R1", "R2"} ∧
        h'.device ⟨some "R1", "net0"⟩ = some { up := true, address := some "02:00:00:00:00:01" } ∧
        h'.device ⟨none, "B0-R1"⟩ = some { up := true, master := some "B0" } ∧
        h'.device ⟨none, "B0"⟩ = some { up := true } := by
  obtain ⟨g, hg, hphys⟩ := commands_realise phys Rack.host "R1" "enp1s0" .container
    (some "02:00:00:00:00:01") .release Rack.ready_phys
  obtain ⟨k, hk, hbridge⟩ := commands_realise (bridge "B0") Rack.host "R1" "net0" .container
    (some "02:00:00:00:00:01") .release Rack.ready_bridge
  refine ⟨⟨Rack.ready_phys, g, hg, ?_, hphys.near, hphys.moved rfl⟩,
    Rack.ready_bridge, k, hk, hbridge.handles, hbridge.near, hbridge.far _ rfl, ?_⟩
  · rw [hphys.handles]
    decide
  · exact hbridge.frame ⟨none, "B0"⟩ (by decide) (by decide) (fun h => nomatch h)

end Link

end Netlab
