import Netlab.Proofs.Phases
import Netlab.Proofs.Topology.Reordered
import Netlab.Proofs.Wiring.Block

/-!
# Every direct link is made once

A direct link is an unordered pair of ends: who declares it does not matter, nor how often.  The
wiring keeps one key for each link that it makes, so the links made are read off what is wired.

* `Topology.Wires.links_made`     one step makes the links whose keys it adds;
* `Topology.linksMade_wireLinks`  so a run makes the links whose keys are there at its end;
* `Topology.mem_links_wiredAfter` and these are the links declared;
* `Topology.links_made_once`      the property, with its independence of the order of declaration.
-/

namespace Netlab

open Shell (Command)

/-! ## commands that make links -/

/-- the two ends that a command joins, each in the namespace of a node -/
def Shell.Command.joins? : Command → Option (Sym2 Endpoint)
  | .argv ["ip", "link", "add", i, "netns", n, "type", "veth", "peer", "name", p, "netns", m] =>
    some s(⟨n, i⟩, ⟨m, p⟩)
  | _ => none

/-- the direct links that commands make, in order -/
def linksMade (cmds : List Command) : List (Sym2 Endpoint) := cmds.filterMap Command.joins?

/-- the block of a direct link makes that link, and no other block makes one -/
theorem linksMade_commands (l : Link) (n : String) (kind : NodeKind) (i : String)
    (addr : Option String) (handles : HandlePolicy) :
    linksMade (l.commands n kind i addr handles) = match l with
      | .direct peer peerInterface => [s(⟨n, i⟩, ⟨peer, peerInterface⟩)]
      | _ => [] := by
  have hroutine : ∀ c, l.Routine n i c → c.joins? = none := by rintro _ ⟨⟩ <;> rfl
  rw [linksMade, l.filterMap_commands_pair n kind i addr handles _ hroutine fun _ => rfl]
  cases l <;> rfl

/-! ## links declared -/

/-- The site is that of a direct link which can be made: the node at its other end is not declared,
or it can be created. -/
def Site.Asks (t : Topology) (key : Endpoint × Endpoint) : Site → Prop
  | .lost _ => False
  | .live n _ i => ∃ peer peerInterface, Link.parse n.name i = .ok (.direct peer peerInterface)
      ∧ t.Usable peer ∧ key = Endpoint.pair ⟨n.name, i.name⟩ ⟨peer, peerInterface⟩

namespace Topology

/-- a node that can be created declares the link, into a node that is not declared or can be created
too -/
def Declares (t : Topology) (link : Sym2 Endpoint) : Prop :=
  ∃ n ∈ t.nodes, ∃ kind, n.creatable = .ok kind ∧ ∃ i ∈ n.interfaces, ∃ peer peerInterface,
    Link.parse n.name i = .ok (.direct peer peerInterface) ∧ t.Usable peer
      ∧ link = s(⟨n.name, i.name⟩, ⟨peer, peerInterface⟩)

theorem exists_site_asks (t : Topology) (link : Sym2 Endpoint) :
    (∃ key, Endpoint.joined key = link ∧ ∃ s ∈ t.sites, s.Asks t key) ↔ t.Declares link := by
  constructor
  · rintro ⟨key, rfl, s, hs, hasks⟩
    cases s with
    | lost e => exact hasks.elim
    | live n kind i =>
      obtain ⟨hn, hk, hi⟩ := (t.mem_sites_live n kind i).mp hs
      obtain ⟨peer, j, hlink, hpeer, rfl⟩ := hasks
      exact ⟨n, hn, kind, hk, i, hi, peer, j, hlink, hpeer, Endpoint.joined_pair _ _⟩
  · rintro ⟨n, hn, kind, hk, i, hi, peer, j, hlink, hpeer, rfl⟩
    refine ⟨_, Endpoint.joined_pair _ _, .live n kind i, ?_, peer, j, hlink, hpeer, rfl⟩
    exact (t.mem_sites_live n kind i).mpr ⟨hn, hk, hi⟩

/-! ## one step -/

section
variable {t : Topology} {handles : HandlePolicy} {w w' : Wired} {s : Site} {trace : Trace}

/-- the links that a step makes are those whose keys it adds -/
theorem Wires.links_made (hstep : t.Wires handles w s trace w') :
    w'.links.reverse.map Endpoint.joined
      = w.links.reverse.map Endpoint.joined ++ linksMade trace.commands := by
  cases hstep with
  | lost | unreadable | stranded | taken => exact (List.append_nil _).symm
  | repeated n kind i peer peerInterface hlink hkey =>
    rw [Trace.commands_warned_once, linksMade, Link.filterMap_address _ _ _ _ fun _ => rfl,
      List.append_nil]
  | made n kind i l hlink hfree =>
    rw [Trace.commands_warned, linksMade_commands]
    cases l with
    | direct peer peerInterface =>
      rw [Wired.add, List.reverse_cons, List.map_append, List.map_singleton,
        Endpoint.joined_pair]
    | bridge | veth | phys => exact (List.append_nil _).symm

/-- a key is known after a step if it was before, or if the site asks for it -/
theorem Wires.mem_links (hstep : t.Wires handles w s trace w') (key : Endpoint × Endpoint) :
    key ∈ w'.links ↔ key ∈ w.links ∨ s.Asks t key := by
  have hnot : ∀ n kind i, (∀ peer j, Link.parse n.name i = .ok (.direct peer j) → ¬ t.Usable peer) →
      (key ∈ w.links ↔ key ∈ w.links ∨ (Site.live n kind i).Asks t key) := by
    intro n kind i hall
    refine ⟨Or.inl, fun h => h.resolve_right ?_⟩
    rintro ⟨peer, j, hlink, hpeer, _⟩
    exact hall peer j hlink hpeer
  cases hstep with
  | lost e => exact (or_iff_left id).symm
  | unreadable n kind i e he => exact hnot n kind i fun peer j hl => by rw [he] at hl; cases hl
  | taken n kind i switch hlink _ =>
    exact hnot n kind i fun peer j hl => by rw [hlink] at hl; cases hl
  | stranded n kind i peer peerInterface hlink hkey hpeer =>
    refine hnot n kind i fun peer' j hl => ?_
    rw [hlink] at hl
    obtain ⟨rfl, _⟩ := Link.direct.inj (Except.ok.inj hl)
    exact hpeer
  | repeated n kind i peer peerInterface hlink hkey =>
    refine ⟨Or.inl, fun h => h.elim id ?_⟩
    rintro ⟨peer', j, hl, _, rfl⟩
    rw [hlink] at hl
    obtain ⟨rfl, rfl⟩ := Link.direct.inj (Except.ok.inj hl)
    exact hkey
  | made n kind i l hlink hfree =>
    cases l with
    | bridge | veth | phys => exact hnot n kind i fun peer j hl => by rw [hlink] at hl; cases hl
    | direct peer peerInterface =>
      rw [Wired.add, List.mem_cons, or_comm]
      refine or_congr_right ⟨?_, ?_⟩
      · rintro rfl
        exact ⟨peer, peerInterface, hlink, hfree.2, rfl⟩
      · rintro ⟨peer', j, hl, _, rfl⟩
        rw [hlink] at hl
        obtain ⟨rfl, rfl⟩ := Link.direct.inj (Except.ok.inj hl)
        rfl

/-- every key is the one of some pair -/
theorem Wires.keys_pair (hstep : t.Wires handles w s trace w')
    (hw : ∀ key ∈ w.links, ∃ a b : Endpoint, key = a.pair b) :
    ∀ key ∈ w'.links, ∃ a b : Endpoint, key = a.pair b := by
  cases hstep with
  | lost | unreadable | repeated | stranded | taken => exact hw
  | made n kind i l hlink hfree =>
    cases l with
    | direct peer peerInterface =>
      exact List.forall_mem_cons.mpr ⟨⟨⟨n.name, i.name⟩, ⟨peer, peerInterface⟩, rfl⟩, hw⟩
    | bridge | veth | phys => exact hw

theorem Wires.nodup_links (hstep : t.Wires handles w s trace w') (hw : w.links.Nodup) :
    w'.links.Nodup := by
  cases hstep with
  | lost | unreadable | repeated | stranded | taken => exact hw
  | made n kind i l hlink hfree =>
    cases l with
    | direct peer peerInterface => exact List.nodup_cons.mpr ⟨hfree.1, hw⟩
    | bridge | veth | phys => exact hw

end

/-! ## a run -/

section
variable (t : Topology) (handles : HandlePolicy)

theorem mem_links_wiredAfter (w : Wired) (ss : List Site) (key : Endpoint × Endpoint) :
    key ∈ (t.wiredAfter handles w ss).links ↔ key ∈ w.links ∨ ∃ s ∈ ss, s.Asks t key := by
  induction ss generalizing w with
  | nil => simp [wiredAfter_nil]
  | cons s ss ih =>
    rw [wiredAfter_cons, ih, (t.wires_wireSite handles w s).mem_links, or_assoc,
      List.exists_mem_cons_iff]

/-- the links made are those whose keys are there at the end -/
theorem linksMade_wireLinks :
    linksMade (t.wireLinks handles).commands
      = (t.wiredAfter handles {} t.sites).links.reverse.map Endpoint.joined :=
  (t.gained_wiredAfter handles (·.links.reverse.map Endpoint.joined) Command.joins?
    (fun _ _ _ _ hstep => hstep.links_made) {} t.sites).symm

theorem mem_linksMade_wireLinks (link : Sym2 Endpoint) :
    link ∈ linksMade (t.wireLinks handles).commands ↔ t.Declares link := by
  rw [← exists_site_asks, linksMade_wireLinks, List.mem_map]
  refine exists_congr fun key => ?_
  rw [List.mem_reverse, mem_links_wiredAfter, and_comm]
  exact and_congr_right fun _ => or_iff_right List.not_mem_nil

theorem nodup_linksMade_wireLinks : (linksMade (t.wireLinks handles).commands).Nodup := by
  have hkeys : (t.wiredAfter handles {} t.sites).links.Nodup :=
    t.wiredAfter_induction handles (·.links.Nodup) t.sites
      (fun w hw s _ => (t.wires_wireSite handles w s).nodup_links hw) {} List.nodup_nil
  -- keys of pairs tell links apart
  have hpair : ∀ key ∈ (t.wiredAfter handles {} t.sites).links, ∃ a b : Endpoint, key = a.pair b :=
    t.wiredAfter_induction handles (fun w => ∀ key ∈ w.links, ∃ a b : Endpoint, key = a.pair b)
      t.sites (fun w hw s _ => (t.wires_wireSite handles w s).keys_pair hw) {}
      fun _ hkey => absurd hkey List.not_mem_nil
  rw [linksMade_wireLinks]
  refine List.Nodup.map_on ?_ (List.nodup_reverse.mpr hkeys)
  intro key hkey key' hkey' heq
  obtain ⟨a, b, rfl⟩ := hpair key (List.mem_reverse.mp hkey)
  obtain ⟨c, d, rfl⟩ := hpair key' (List.mem_reverse.mp hkey')
  rw [Endpoint.joined_pair, Endpoint.joined_pair] at heq
  exact (Endpoint.pair_eq_iff a b c d).mpr heq

end

/-! ## another order of declaration -/

theorem Reordered.declares {t t' : Topology} (h : t.Reordered t') (hvalid : t.validate = .ok ())
    (link : Sym2 Endpoint) : t'.Declares link ↔ t.Declares link := by
  constructor
  · rintro ⟨n', hn', kind, hk, i, hi, peer, j, hlink, hpeer, rfl⟩
    obtain ⟨n, hn, hr⟩ := h.exists_of_mem_reordered n' hn'
    rw [hr.name] at hlink
    refine ⟨n, hn, kind, hr.creatable ▸ hk, i, (hr.mem_interfaces i).mp hi, peer, j, hlink, ?_, ?_⟩
    · exact (h.usable hvalid peer).mp hpeer
    · rw [hr.name]
  · rintro ⟨n, hn, kind, hk, i, hi, peer, j, hlink, hpeer, rfl⟩
    obtain ⟨n', hn', hr⟩ := h.exists_of_mem n hn
    rw [← hr.name] at hlink
    refine ⟨n', hn', kind, hr.creatable.trans hk, i, (hr.mem_interfaces i).mpr hi, peer, j, hlink,
      ?_, ?_⟩
    · exact (h.usable hvalid peer).mpr hpeer
    · rw [hr.name]

/-- **Every direct link is made once.**  Whatever the options, a wiring that succeeds joins no two
ends twice, and it joins exactly the ends of the links that are declared.  With the nodes, and the
interfaces of each node, in any other order, the links made are the same. -/
theorem links_made_once (t : Topology) (h : t.validate = .ok ()) (o : CompileOptions)
    (ds ds' : Diagnostics) (cmds : List Command)
    (hrun : (t.wireLinks o.handles).run o.policy ds = (.ok cmds, ds')) :
    (linksMade cmds).Nodup ∧ (∀ link, link ∈ linksMade cmds ↔ t.Declares link) ∧
      ∀ t', t.Reordered t' → t'.validate = .ok () ∧
        ∀ handles ds, ∃ cmds' ds', (t'.wireLinks handles).run .skip ds = (.ok cmds', ds') ∧
          ∀ link, link ∈ linksMade cmds' ↔ link ∈ linksMade cmds := by
  obtain rfl := Trace.eq_commands_of_run_eq_ok _ o.policy ds ds' cmds hrun
  have hmem := t.mem_linksMade_wireLinks o.handles
  refine ⟨t.nodup_linksMade_wireLinks o.handles, hmem, fun t' hr => ⟨hr.validate h, ?_⟩⟩
  intro handles ds
  refine ⟨_, _, Trace.run_skip _ ds, fun link => ?_⟩
  rw [hmem, t'.mem_linksMade_wireLinks handles, hr.declares h]

namespace Crossed

/-- a node that links to the other one, twice to a node that is not declared, and to itself -/
def left : Node where
  name := "A"
  type := some "netns"
  interfaces :=
    [ { name := "net0", type := "direct", args := some "B#net0" },
      { name := "net1", type := "direct", args := some "X#net0" },
      { name := "net1", type := "direct", args := some "X#net0" },
      { name := "net2", type := "direct", args := some "A#net2" } ]

/-- a node that declares the link between the two once more -/
def right : Node where
  name := "B"
  type := some "netns"
  interfaces := [{ name := "net0", type := "direct", args := some "A#net0" }]

def topology : Topology where
  nodes := [left, right]

/-- the same topology from back to front -/
def turned : Topology where
  nodes := [right, left.withInterfaces left.interfaces.reverse]

theorem reordered_turned : topology.Reordered turned where
  nodes := by
    refine ⟨[right, left], List.Perm.swap left right [], ?_⟩
    refine .cons ⟨right.interfaces, List.Perm.refl _, rfl⟩ (.cons ?_ .nil)
    exact ⟨left.interfaces.reverse, left.interfaces.reverse_perm, rfl⟩
  rest := rfl

end Crossed

theorem links_made_once_crossed : Crossed.topology.validate = .ok () ∧
    Crossed.topology.Reordered Crossed.turned ∧
    ∃ cmds ds, (Crossed.topology.wireLinks .keep).run .abort {} = (.ok cmds, ds) ∧
      linksMade cmds = [s(⟨"A", "net0"⟩, ⟨"B", "net0"⟩), s(⟨"A", "net1"⟩, ⟨"X", "net0"⟩),
        s(⟨"A", "net2"⟩, ⟨"A", "net2"⟩)] ∧
      (linksMade cmds).Nodup ∧
      ∃ cmds' ds', (Crossed.turned.wireLinks .keep).run .skip {} = (.ok cmds', ds') ∧
        ∀ link, link ∈ linksMade cmds' ↔ link ∈ linksMade cmds := by
  have hvalid : Crossed.topology.validate = .ok () := by decide +kernel
  have hrun : (Crossed.topology.wireLinks .keep).run .abort {}
      = (.ok (Crossed.topology.wireLinks .keep).commands,
          ({} : Diagnostics).pushAll (Crossed.topology.wireLinks .keep).diagnostics) := by
    rw [Trace.run_abort_of_errors_nil _ _ rfl, Trace.run_skip]
  obtain ⟨hnodup, _, hturned⟩ :=
    links_made_once Crossed.topology hvalid ⟨.abort, .keep⟩ {} _ _ hrun
  obtain ⟨_, hsame⟩ := hturned Crossed.turned Crossed.reordered_turned
  exact ⟨hvalid, Crossed.reordered_turned, _, _, hrun, rfl, hnodup, hsame .keep {}⟩

end Topology

end Netlab
