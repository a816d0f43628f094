import Netlab.Proofs.Topology.Names
import Netlab.Proofs.Wiring.Keys

/-!
# One step of the wiring

`Topology.Wires` lists the ways one site can go: what is reported, and what is wired behind it.
Everything that is proved of all sites goes by these cases.

* `Topology.wires_wireSite`   the wiring of a site goes one of these ways;
* `Topology.wireSites_append`, `Topology.mem_wireSites`   a run, one step in it;
* `Topology.wiredAfter_induction`                         what every step keeps, a run keeps;
* `Topology.gained_wiredAfter`                            what every step gains by its commands, a
                                                          run gains by all of them;
* `Topology.usable_wired`     no end of a wired link is a node that cannot be created.
-/

namespace Netlab

open Shell (Command)

/-! ## the ways a site can go -/

/-- what is wired once an interface is -/
def Wired.add (w : Wired) (a : Endpoint) : Link → Wired
  | .direct peer i => { w with links := a.pair ⟨peer, i⟩ :: w.links }
  | .bridge switch => { w with hostEnds := Link.hostEnd switch a.node :: w.hostEnds }
  | .veth _ | .phys => w

theorem Node.sites_of_error (n : Node) (e : CompileError) (hk : n.creatable = .error e) :
    n.sites = [.lost e] := by
  rw [sites, hk]

theorem Node.sites_of_ok (n : Node) (kind : NodeKind) (hk : n.creatable = .ok kind) :
    n.sites = n.interfaces.map (.live n kind) := by
  rw [sites, hk]

namespace Topology

/-- what is to be said about an interface that is wired -/
def linkWarnings (t : Topology) (handles : HandlePolicy) (a : Endpoint) (kind : NodeKind)
    (addr : Option String) : Link → List String
  | .direct peer _ => if t.node? peer = none then [warnUndeclaredNode a peer] else []
  | .bridge switch => if t.switch? switch = none then [warnUndeclaredSwitch a switch] else []
  | .veth _ | .phys => (if handles.gives kind then addr.toList else []).map (warnDropped a)

/-- whether nothing stands against a link: it is not made yet, and it leads to no node that cannot
be created -/
def Free (t : Topology) (w : Wired) (a : Endpoint) : Link → Prop
  | .direct peer i => a.pair ⟨peer, i⟩ ∉ w.links ∧ t.Usable peer
  | .bridge switch => Link.hostEnd switch a.node ∉ w.hostEnds
  | .veth _ | .phys => True

/-- the way one site goes -/
inductive Wires (t : Topology) (handles : HandlePolicy) (w : Wired) : Site → Trace → Wired → Prop
  /-- the node cannot be created -/
  | lost (e : CompileError) : Wires t handles w (.lost e) [.fail e] w
  /-- the interface does not say where it leads -/
  | unreadable (n : Node) (kind : NodeKind) (i : Interface) (e : CompileError)
      (hlink : Link.parse n.name i = .error e) : Wires t handles w (.live n kind i) [.fail e] w
  /-- the link is made already, from this end or from the other -/
  | repeated (n : Node) (kind : NodeKind) (i : Interface) (peer peerInterface : String)
      (hlink : Link.parse n.name i = .ok (.direct peer peerInterface))
      (hkey : Endpoint.pair ⟨n.name, i.name⟩ ⟨peer, peerInterface⟩ ∈ w.links) :
      Wires t handles w (.live n kind i)
        [.warn (warnTwice ⟨n.name, i.name⟩ ⟨peer, peerInterface⟩),
          .emit (Link.addressCommands n.name i.name i.addr)] w
  /-- the link leads to a node that cannot be created -/
  | stranded (n : Node) (kind : NodeKind) (i : Interface) (peer peerInterface : String)
      (hlink : Link.parse n.name i = .ok (.direct peer peerInterface))
      (hkey : Endpoint.pair ⟨n.name, i.name⟩ ⟨peer, peerInterface⟩ ∉ w.links)
      (hpeer : ¬ t.Usable peer) :
      Wires t handles w (.live n kind i) [.fail (.uncreatablePeer n.name i.name peer)] w
  /-- the host end is there already -/
  | taken (n : Node) (kind : NodeKind) (i : Interface) (switch : String)
      (hlink : Link.parse n.name i = .ok (.bridge switch))
      (hend : Link.hostEnd switch n.name ∈ w.hostEnds) :
      Wires t handles w (.live n kind i) [.fail (.duplicateBridgePeer n.name switch)] w
  | made (n : Node) (kind : NodeKind) (i : Interface) (l : Link)
      (hlink : Link.parse n.name i = .ok l) (hfree : t.Free w ⟨n.name, i.name⟩ l) :
      Wires t handles w (.live n kind i)
        ((t.linkWarnings handles ⟨n.name, i.name⟩ kind i.addr l).map .warn
          ++ [.emit (l.commands n.name kind i.name i.addr handles)])
        (w.add ⟨n.name, i.name⟩ l)

theorem wires_direct (t : Topology) (handles : HandlePolicy) (w : Wired) (n : Node)
    (kind : NodeKind) (i : Interface) (peer peerInterface : String)
    (hlink : Link.parse n.name i = .ok (.direct peer peerInterface)) :
    t.Wires handles w (.live n kind i)
      (t.wireLink handles n kind i (.direct peer peerInterface) w).1
      (t.wireLink handles n kind i (.direct peer peerInterface) w).2 := by
  have hmade := @Wires.made t handles w n kind i _ hlink
  rw [linkWarnings] at hmade
  rw [wireLink, wireDirect]
  split
  · next hkey => exact .repeated n kind i peer peerInterface hlink hkey
  · next hkey =>
    dsimp only
    split
    · next hpeer =>
      rw [if_pos hpeer] at hmade
      exact hmade ⟨hkey, fun m hm => by rw [hpeer] at hm; cases hm⟩
    · next m hpeer =>
      split
      · next e he =>
        refine .stranded n kind i peer peerInterface hlink hkey fun hu => ?_
        obtain ⟨kind', hk⟩ := hu m hpeer
        rw [he] at hk
        cases hk
      · next kind' hk =>
        rw [if_neg (by rw [hpeer]; exact Option.some_ne_none m)] at hmade
        refine hmade ⟨hkey, fun m' hm' => ?_⟩
        rw [hpeer] at hm'
        obtain rfl := Option.some.inj hm'
        exact ⟨kind', hk⟩

theorem wires_bridge (t : Topology) (handles : HandlePolicy) (w : Wired) (n : Node)
    (kind : NodeKind) (i : Interface) (switch : String)
    (hlink : Link.parse n.name i = .ok (.bridge switch)) :
    t.Wires handles w (.live n kind i)
      (t.wireLink handles n kind i (.bridge switch) w).1
      (t.wireLink handles n kind i (.bridge switch) w).2 := by
  have hmade := @Wires.made t handles w n kind i _ hlink
  rw [linkWarnings] at hmade
  rw [wireLink, wireBridge]
  dsimp only
  split
  · next hend => exact .taken n kind i switch hlink hend
  · next hend =>
    split
    · next hswitch =>
      rw [if_pos hswitch] at hmade
      exact hmade hend
    · next s hswitch =>
      rw [if_neg (by rw [hswitch]; exact Option.some_ne_none s)] at hmade
      exact hmade hend

theorem wires_wireSite (t : Topology) (handles : HandlePolicy) (w : Wired) (s : Site) :
    t.Wires handles w s (t.wireSite handles w s).1 (t.wireSite handles w s).2 := by
  cases s with
  | lost e => exact .lost e
  | live n kind i =>
    rw [wireSite]
    split
    · next e he => exact .unreadable n kind i e he
    · next l hlink =>
      cases l with
      | direct peer peerInterface => exact t.wires_direct handles w n kind i _ _ hlink
      | bridge switch => exact t.wires_bridge handles w n kind i _ hlink
      | veth peer =>
        have hmade := @Wires.made t handles w n kind i _ hlink trivial
        rw [linkWarnings, List.map_map] at hmade
        exact hmade
      | phys =>
        have hmade := @Wires.made t handles w n kind i _ hlink trivial
        rw [linkWarnings, List.map_map] at hmade
        exact hmade

/-! ## sites -/

theorem mem_sites_live (t : Topology) (n : Node) (kind : NodeKind) (i : Interface) :
    .live n kind i ∈ t.sites ↔ n ∈ t.nodes ∧ n.creatable = .ok kind ∧ i ∈ n.interfaces := by
  rw [sites, List.mem_flatMap]
  constructor
  · rintro ⟨m, hm, hs⟩
    cases hk : m.creatable with
    | error e =>
      rw [m.sites_of_error e hk] at hs
      cases List.mem_singleton.mp hs
    | ok kind' =>
      rw [m.sites_of_ok kind' hk] at hs
      obtain ⟨j, hj, heq⟩ := List.mem_map.mp hs
      obtain ⟨rfl, rfl, rfl⟩ := heq
      exact ⟨hm, hk, hj⟩
  · rintro ⟨hn, hk, hi⟩
    refine ⟨n, hn, ?_⟩
    rw [n.sites_of_ok kind hk]
    exact List.mem_map_of_mem hi

/-! ## runs -/

section
variable (t : Topology) (handles : HandlePolicy)

/-- what is wired behind a list of sites -/
def wiredAfter (w : Wired) (ss : List Site) : Wired :=
  ss.foldl (fun w s => (t.wireSite handles w s).2) w

theorem wiredAfter_nil (w : Wired) : t.wiredAfter handles w [] = w := rfl
theorem wiredAfter_cons (w : Wired) (s : Site) (ss : List Site) :
    t.wiredAfter handles w (s :: ss) = t.wiredAfter handles (t.wireSite handles w s).2 ss := rfl

theorem wireSites_append (w : Wired) (a b : List Site) :
    t.wireSites handles w (a ++ b)
      = t.wireSites handles w a ++ t.wireSites handles (t.wiredAfter handles w a) b := by
  induction a generalizing w with
  | nil => rfl
  | cons s a ih =>
    rw [List.cons_append, wireSites_cons, wireSites_cons, wiredAfter_cons, ih, List.append_assoc]

/-- what the sites report, a trace for each -/
def traces : Wired → List Site → List Trace
  | _, [] => []
  | w, s :: ss => (t.wireSite handles w s).1 :: traces (t.wireSite handles w s).2 ss

theorem flatten_traces (w : Wired) (ss : List Site) :
    (t.traces handles w ss).flatten = t.wireSites handles w ss := by
  induction ss generalizing w with
  | nil => rfl
  | cons s ss ih => rw [traces, List.flatten_cons, ih, wireSites_cons]

theorem mem_wireSites (w : Wired) (ss : List Site) (r : Report) :
    r ∈ t.wireSites handles w ss ↔
      ∃ before s after, ss = before ++ s :: after
        ∧ r ∈ (t.wireSite handles (t.wiredAfter handles w before) s).1 := by
  constructor
  · intro hr
    induction ss generalizing w with
    | nil => exact absurd hr List.not_mem_nil
    | cons s ss ih =>
      rw [wireSites_cons, List.mem_append] at hr
      obtain hr | hr := hr
      · exact ⟨[], s, ss, rfl, hr⟩
      · obtain ⟨before, s', after, hss, hr'⟩ := ih _ hr
        exact ⟨s :: before, s', after, by rw [hss, List.cons_append], hr'⟩
  · rintro ⟨before, s, after, rfl, hr⟩
    rw [wireSites_append, wireSites_cons]
    exact List.mem_append_right _ (List.mem_append_left _ hr)

theorem wiredAfter_induction (p : Wired → Prop) (ss : List Site)
    (hstep : ∀ w, p w → ∀ s ∈ ss, p (t.wireSite handles w s).2) (w : Wired) (hw : p w) :
    p (t.wiredAfter handles w ss) := by
  induction ss generalizing w with
  | nil => exact hw
  | cons s ss ih =>
    rw [wiredAfter_cons]
    exact ih (fun w hw s' hs' => hstep w hw s' (List.mem_cons_of_mem _ hs')) _
      (hstep w hw s (List.mem_cons_self ..))

/-- Where what is wired gains with every step what its commands are read as, it gains with a run
what all the commands are read as. -/
theorem gained_wiredAfter {α : Type} (gains : Wired → List α) (f : Command → Option α)
    (hstep : ∀ w s trace w', t.Wires handles w s trace w' →
      gains w' = gains w ++ trace.commands.filterMap f) (w : Wired) (ss : List Site) :
    gains (t.wiredAfter handles w ss)
      = gains w ++ (Trace.commands (t.wireSites handles w ss)).filterMap f := by
  induction ss generalizing w with
  | nil => exact (List.append_nil _).symm
  | cons s ss ih =>
    rw [wiredAfter_cons, ih, hstep _ _ _ _ (t.wires_wireSite handles w s), wireSites_cons,
      Trace.commands_append, List.filterMap_append, List.append_assoc]

end

/-! ## the ends of wired links -/

/-- both ends of every wired link may be linked to -/
def UsableEnds (t : Topology) (w : Wired) : Prop :=
  ∀ k ∈ w.links, t.Usable k.1.node ∧ t.Usable k.2.node

theorem Wires.usableEnds {t : Topology} {handles : HandlePolicy} {w w' : Wired} {s : Site}
    {trace : Trace} (hstep : t.Wires handles w s trace w') (h : t.validate = .ok ())
    (hw : t.UsableEnds w) (hs : s ∈ t.sites) : t.UsableEnds w' := by
  cases hstep with
  | lost | unreadable | repeated | stranded | taken => exact hw
  | made n kind i l hlink hfree =>
    cases l with
    | bridge | veth | phys => exact hw
    | direct peer peerInterface =>
      -- the one new key joins a node that is created with a name that is usable
      obtain ⟨hn, hk, _⟩ := (t.mem_sites_live n kind i).mp hs
      intro k hmem
      obtain rfl | hmem := List.mem_cons.mp hmem
      · exact (Endpoint.pair_forall (fun e => t.Usable e.node) _ _).mpr
          ⟨t.usable_of_creatable h n hn kind hk, hfree.2⟩
      · exact hw k hmem

theorem usable_wired (t : Topology) (h : t.validate = .ok ()) (handles : HandlePolicy)
    (before : List Site) (hsub : before ⊆ t.sites) :
    t.UsableEnds (t.wiredAfter handles {} before) := by
  refine t.wiredAfter_induction handles t.UsableEnds before ?_ {} fun k hk => ?_
  · intro w hw s hs
    exact (t.wires_wireSite handles w s).usableEnds h hw (hsub hs)
  · exact absurd hk List.not_mem_nil

end Topology

end Netlab
