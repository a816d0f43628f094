import Netlab.Proofs.Wiring.Account
import Netlab.Proofs.Wiring.Addresses

/-!
# What the handle policy changes

The same topology is wired under `release` and under `keep`, and the two runs are compared site by
site.  They part only where a device moves into a container (`Site.drops`): there `release` gives
up the handle of the container and drops the address, and `keep` does neither.

* `Topology.parts_wireSite`         one site under the two policies;
* `Topology.errors_traces`          the same sites fail with the same errors;
* `Topology.retaining_wireSites`    the commands compared, without those that the policy is about;
* `Topology.surrendered_wireSites`  what is given up, and behind which command;
* `Topology.policies_compared`      the property.
-/

namespace Netlab

open Shell (Command)

/-! ## commands that give up a handle -/

/-- the node whose handle a command gives up -/
def Shell.Command.gives? : Command → Option String
  | .argv ["ip", "netns", "del", n] => some n
  | _ => none

/-- the end that a command brings up -/
def Shell.Command.raises? : Command → Option Endpoint
  | .argv ["ip", "netns", "exec", n, "ip", "link", "set", i, "up"] => some ⟨n, i⟩
  | _ => none

/-- the nodes whose handles are given up, in order, each with the end that the command directly in
front brings up; `front` is the end that was brought up last -/
def surrendered (front : Option Endpoint) : List Command → List (Option Endpoint × String)
  | [] => []
  | c :: cs => c.gives?.toList.map (Prod.mk front) ++ surrendered c.raises? cs

/-- the commands that give up no handle -/
def retaining (cmds : List Command) : List Command := cmds.filter (·.gives?.isNone)

/-- the commands that set no address -/
def unaddressed (cmds : List Command) : List Command := cmds.filter (·.sets?.isNone)

theorem retaining_append (a b : List Command) : retaining (a ++ b) = retaining a ++ retaining b :=
  List.filter_append ..

theorem exists_surrendered_append (front : Option Endpoint) (a : List Command) :
    ∃ front', ∀ b, surrendered front (a ++ b) = surrendered front a ++ surrendered front' b := by
  induction a generalizing front with
  | nil => exact ⟨front, fun b => rfl⟩
  | cons c a ih =>
    obtain ⟨front', happend⟩ := ih c.raises?
    refine ⟨front', fun b => ?_⟩
    rw [List.cons_append, surrendered, surrendered, happend, List.append_assoc]

/-- a list of commands that gives up nothing is kept as a whole -/
theorem retaining_of_surrendered_nil (front : Option Endpoint) (cmds : List Command)
    (h : surrendered front cmds = []) : retaining cmds = cmds := by
  induction cmds generalizing front with
  | nil => rfl
  | cons c cs ih =>
    rw [surrendered, List.append_eq_nil_iff, List.map_eq_nil_iff, Option.toList_eq_nil_iff] at h
    have hcons : retaining (c :: cs) = c :: retaining cs :=
      List.filter_cons_of_pos (Option.isNone_iff_eq_none.mpr h.1)
    rw [hcons, ih c.raises? h.2]

theorem mem_surrendered (front : Option Endpoint) (cmds : List Command) (n : String)
    (h : Netns.delete n ∈ cmds) : ∃ up, (up, n) ∈ surrendered front cmds := by
  induction cmds generalizing front with
  | nil => exact absurd h List.not_mem_nil
  | cons c cs ih =>
    obtain rfl | h := List.mem_cons.mp h
    · exact ⟨front, List.mem_append_left _ (List.mem_singleton_self _)⟩
    · obtain ⟨up, hup⟩ := ih c.raises? h
      exact ⟨up, List.mem_append_right _ hup⟩

/-! ## one link under the two policies -/

namespace Link

theorem surrendered_address (front : Option Endpoint) (n i : String) (addr : Option String) :
    surrendered front (addressCommands n i addr) = [] := by
  cases addr <;> rfl

/-- a handle is given up directly behind the command that brings up the device that moved -/
theorem surrendered_commands (l : Link) (front : Option Endpoint) (n : String) (kind : NodeKind)
    (i : String) (addr : Option String) (handles : HandlePolicy) :
    surrendered front (l.commands n kind i addr handles)
      = if l.GivesUp kind handles then [(some ⟨n, i⟩, n)] else [] := by
  cases l with
  | direct | bridge =>
    rw [if_neg (not_givesUp _ kind handles rfl)]
    cases addr <;> rfl
  | veth | phys => cases kind <;> cases handles <;> cases addr <;> rfl

/-- where no handle is given up the policy makes no difference -/
theorem commands_of_not_givesUp (l : Link) (n : String) (kind : NodeKind) (i : String)
    (addr : Option String) (h : ¬ l.GivesUp kind .release) :
    l.commands n kind i addr .release = l.commands n kind i addr .keep := by
  cases l with
  | direct | bridge => rfl
  | veth | phys =>
    cases kind with
    | netns => rfl
    | container => exact absurd ⟨rfl, rfl, rfl⟩ h

/-- where a handle is given up, it is given up for the address -/
theorem commands_of_givesUp (l : Link) (n : String) (kind : NodeKind) (i : String)
    (addr : Option String) (h : l.GivesUp kind .release) :
    retaining (l.commands n kind i addr .release)
      = unaddressed (l.commands n kind i addr .keep) := by
  obtain ⟨rfl, _, hmoves⟩ := h
  cases l with
  | direct | bridge => cases hmoves
  | veth | phys => cases addr <;> rfl

end Link

/-! ## one site under the two policies -/

/-- the end that an interface is -/
def Site.end? : Site → Option Endpoint
  | .lost _ => none
  | .live n _ i => some ⟨n.name, i.name⟩

/-- the commands of a contribution, without the address of a device that moves into a container -/
def Contribution.unaddressed (c : Contribution) : List Command :=
  if c.site.drops .release then Netlab.unaddressed c.commands else c.commands

/-- the diagnostics that announce no loss of an address -/
def undropped (ds : List Diagnostic) : List Diagnostic := ds.filter (·.dropped?.isNone)

theorem undropped_append (a b : List Diagnostic) :
    undropped (a ++ b) = undropped a ++ undropped b :=
  List.filter_append ..

/-- nothing else is said where only losses are announced -/
theorem undropped_warnDropped (a : Endpoint) (addrs : List String) :
    undropped ((addrs.map (warnDropped a)).map .warning) = [] := by
  refine List.filter_eq_nil_iff.mpr fun d hd => ?_
  obtain ⟨m, hm, rfl⟩ := List.mem_map.mp hd
  obtain ⟨addr, _, rfl⟩ := List.mem_map.mp hm
  rw [dropped?_warnDropped]
  exact Bool.false_ne_true

namespace Topology

/-- the ends whose node gives up its handle once they are wired -/
def surrenders (handles : HandlePolicy) (ss : List Site) : List Endpoint :=
  (ss.filter (·.drops handles)).filterMap Site.end?

theorem surrenders_cons (handles : HandlePolicy) (s : Site) (ss : List Site) :
    surrenders handles (s :: ss)
      = (if s.drops handles then s.end?.toList else []) ++ surrenders handles ss := by
  cases hs : s.drops handles with
  | true => cases he : s.end? <;> simp [surrenders, hs, he]
  | false => simp [surrenders, hs]

/-- under `keep` no handle is given up -/
theorem filter_drops_keep (ss : List Site) : ss.filter (·.drops .keep) = [] := by
  refine List.filter_eq_nil_iff.mpr fun s _ => ?_
  cases s with
  | lost e => exact Bool.false_ne_true
  | live n kind i =>
    rw [Site.drops]
    split
    · exact Bool.false_ne_true
    · intro h
      obtain ⟨_, hgives, _⟩ := of_decide_eq_true h
      cases hgives

/-- One site under the two policies: it goes the same way, or its device moves into a container. -/
inductive Parts (t : Topology) (w : Wired) : Site → Trace × Wired → Trace × Wired → Prop
  | same (s : Site) (step : Trace × Wired) (hdrops : s.drops .release = false) :
      Parts t w s step step
  | moved (n : Node) (kind : NodeKind) (i : Interface) (l : Link)
      (hlink : Link.parse n.name i = .ok l) (hup : l.GivesUp kind .release) :
      Parts t w (.live n kind i)
        ((i.addr.toList.map (warnDropped ⟨n.name, i.name⟩)).map .warn
          ++ [.emit (l.commands n.name kind i.name i.addr .release)], w)
        ([.emit (l.commands n.name kind i.name i.addr .keep)], w)

theorem parts_wireSite (t : Topology) (w : Wired) (s : Site) :
    t.Parts w s (t.wireSite .release w s) (t.wireSite .keep w s) := by
  cases s with
  | lost e => exact .same _ _ rfl
  | live n kind i =>
    cases hlink : Link.parse n.name i with
    | error e =>
      have hsame :
          t.wireSite .release w (.live n kind i) = t.wireSite .keep w (.live n kind i) := by
        simp only [wireSite, hlink]
      rw [hsame]
      exact .same _ _ (by rw [Site.drops, hlink])
    | ok l =>
      simp only [wireSite, hlink]
      by_cases hup : l.GivesUp kind .release
      · have hmoved := Parts.moved (t := t) (w := w) n kind i l hlink hup
        obtain ⟨rfl, _, hmoves⟩ := hup
        rw [List.map_map] at hmoved
        cases l with
        | direct | bridge => cases hmoves
        | veth | phys => exact hmoved
      · have hblock := l.commands_of_not_givesUp n.name kind i.name i.addr hup
        have hsame : t.wireLink .release n kind i l w = t.wireLink .keep n kind i l w := by
          cases l with
          | direct | bridge => simp only [wireLink, hblock]
          | veth | phys =>
            cases kind with
            | netns => rfl
            | container => exact absurd ⟨rfl, rfl, rfl⟩ hup
        rw [hsame]
        exact .same _ _ ((Site.drops_live .release n kind i l hlink).trans (decide_eq_false hup))

/-! ### what the two have in common -/

section
variable {t : Topology} {w : Wired} {s : Site} {released kept : Trace × Wired}

theorem Parts.wired (hparts : t.Parts w s released kept) : released.2 = kept.2 := by
  cases hparts <;> rfl

theorem Parts.errors (hparts : t.Parts w s released kept) :
    Trace.errors released.1 = Trace.errors kept.1 := by
  cases hparts with
  | same => rfl
  | moved => exact Trace.errors_warned _ _

theorem Parts.undropped (hparts : t.Parts w s released kept) :
    undropped (Trace.diagnostics released.1) = undropped (Trace.diagnostics kept.1) := by
  cases hparts with
  | same => rfl
  | moved n kind i l hlink hup =>
    rw [Trace.diagnostics_warned, undropped_warnDropped]
    rfl

end

/-! ### what is given up -/

theorem Wires.surrendered {t : Topology} {handles : HandlePolicy} {w w' : Wired} {s : Site}
    {trace : Trace} (hstep : t.Wires handles w s trace w') (front : Option Endpoint) :
    surrendered front trace.commands
      = (if s.drops handles then s.end?.toList else []).map fun a => (some a, a.node) := by
  cases hstep with
  | lost e => rfl
  | unreadable n kind i e hlink =>
    rw [Site.drops, hlink]
    rfl
  | repeated n kind i peer peerInterface hlink hkey =>
    rw [Trace.commands_warned_once, Link.surrendered_address,
      Site.drops_of_stays handles n kind i _ hlink rfl]
    rfl
  | stranded n kind i peer peerInterface hlink hkey hpeer =>
    rw [Site.drops_of_stays handles n kind i _ hlink rfl]
    rfl
  | taken n kind i switch hlink hend =>
    rw [Site.drops_of_stays handles n kind i _ hlink rfl]
    rfl
  | made n kind i l hlink hfree =>
    rw [Trace.commands_warned, Link.surrendered_commands, Site.drops_live handles n kind i l hlink]
    by_cases hup : l.GivesUp kind handles
    · rw [if_pos hup, decide_eq_true hup]
      rfl
    · rw [if_neg hup, decide_eq_false hup]
      rfl

/-- without the commands that the policy is about, a site adds the same under both -/
theorem retaining_wireSite (t : Topology) (w : Wired) (s : Site) :
    retaining (Trace.commands (t.wireSite .release w s).1)
      = Contribution.unaddressed ⟨s, Trace.commands (t.wireSite .keep w s).1,
          Trace.diagnostics (t.wireSite .keep w s).1⟩ := by
  have hsurrendered := (t.wires_wireSite .release w s).surrendered none
  have hparts := t.parts_wireSite w s
  rw [Contribution.unaddressed]
  generalize t.wireSite .release w s = released at hsurrendered hparts
  generalize t.wireSite .keep w s = kept at hparts
  cases hparts with
  | same s step hdrops =>
    rw [hdrops] at hsurrendered ⊢
    exact retaining_of_surrendered_nil none _ hsurrendered
  | moved n kind i l hlink hup =>
    rw [Trace.commands_warned, Site.drops_live .release n kind i l hlink, decide_eq_true hup,
      if_pos rfl]
    have hkept : Trace.commands [.emit (l.commands n.name kind i.name i.addr .keep)]
        = l.commands n.name kind i.name i.addr .keep := Trace.commands_warned [] _
    rw [hkept]
    exact l.commands_of_givesUp n.name kind i.name i.addr hup

/-! ## runs -/

section
variable (t : Topology)

theorem errors_traces (w : Wired) (ss : List Site) :
    (t.traces .release w ss).map Trace.errors = (t.traces .keep w ss).map Trace.errors := by
  induction ss generalizing w with
  | nil => rfl
  | cons s ss ih =>
    have hparts := t.parts_wireSite w s
    rw [traces, traces, List.map_cons, List.map_cons, hparts.errors, hparts.wired, ih]

theorem errors_wireLinks :
    Trace.errors (t.wireLinks .release) = Trace.errors (t.wireLinks .keep) := by
  rw [wireLinks, wireLinks, ← flatten_traces, ← flatten_traces, Trace.errors_flatten,
    Trace.errors_flatten, errors_traces]

theorem undropped_wireSites (w : Wired) (ss : List Site) :
    undropped (Trace.diagnostics (t.wireSites .release w ss))
      = undropped (Trace.diagnostics (t.wireSites .keep w ss)) := by
  induction ss generalizing w with
  | nil => rfl
  | cons s ss ih =>
    have hparts := t.parts_wireSite w s
    rw [wireSites_cons, wireSites_cons, Trace.diagnostics_append, Trace.diagnostics_append,
      undropped_append, undropped_append, hparts.undropped, hparts.wired, ih]

theorem retaining_wireSites (w : Wired) (ss : List Site) :
    retaining (Trace.commands (t.wireSites .release w ss))
      = (t.ledger .keep w ss).flatMap Contribution.unaddressed := by
  induction ss generalizing w with
  | nil => rfl
  | cons s ss ih =>
    rw [wireSites_cons, Trace.commands_append, retaining_append, retaining_wireSite,
      (t.parts_wireSite w s).wired, ih, ledger, List.flatMap_cons]

theorem surrendered_wireSites (handles : HandlePolicy) (front : Option Endpoint) (w : Wired)
    (ss : List Site) :
    surrendered front (Trace.commands (t.wireSites handles w ss))
      = (surrenders handles ss).map fun a => (some a, a.node) := by
  induction ss generalizing w front with
  | nil => rfl
  | cons s ss ih =>
    obtain ⟨front', happend⟩ :=
      exists_surrendered_append front (Trace.commands (t.wireSite handles w s).1)
    rw [wireSites_cons, Trace.commands_append, happend, ih,
      (t.wires_wireSite handles w s).surrendered, surrenders_cons, List.map_append]

theorem surrenders_keep (ss : List Site) : surrenders .keep ss = [] := by
  rw [surrenders, filter_drops_keep]
  rfl

theorem lostAddresses_keep (ss : List Site) : lostAddresses .keep ss = [] := by
  rw [lostAddresses, filter_drops_keep]
  rfl

/-- only a container gives up its handle -/
theorem exists_container_of_surrenders (a : Endpoint) (ha : a ∈ surrenders .release t.sites) :
    ∃ n ∈ t.nodes, n.name = a.node ∧ n.kind = .ok .container := by
  obtain ⟨s, hs, hend⟩ := List.mem_filterMap.mp ha
  obtain ⟨hs, hdrops⟩ := List.mem_filter.mp hs
  cases s with
  | lost e => cases hend
  | live n kind i =>
    obtain rfl := Option.some.inj hend
    obtain ⟨hn, hk, _⟩ := (t.mem_sites_live n kind i).mp hs
    have hkind := ((n.creatable_eq_ok kind).mp hk).1
    cases hlink : Link.parse n.name i with
    | error e =>
      rw [Site.drops, hlink] at hdrops
      cases hdrops
    | ok l =>
      rw [Site.drops_live .release n kind i l hlink, decide_eq_true_eq] at hdrops
      obtain ⟨rfl, _⟩ := hdrops
      exact ⟨n, hn, rfl, hkind⟩

end

/-! ## the two runs -/

theorem undropped_pushAll (ds : Diagnostics) (a b : List Diagnostic)
    (h : undropped a = undropped b) :
    undropped (ds.pushAll a).toList = undropped (ds.pushAll b).toList := by
  simp only [undropped, Diagnostics.filter_pushAll] at h ⊢
  rw [h]

/-- a run announces the addresses that its sites lose, and no others -/
theorem mem_droppedMessages_wireLinks (t : Topology) (handles : HandlePolicy) (ds : Diagnostics)
    (m : String) :
    m ∈ droppedMessages (ds.pushAll (Trace.diagnostics (t.wireLinks handles))).toList
      ↔ m ∈ droppedMessages ds.toList ∨
        ∃ a addr, (a, addr) ∈ lostAddresses handles t.sites ∧ m = warnDropped a addr := by
  rw [mem_droppedMessages_pushAll, wireLinks, dropped_wireSites, List.mem_map]
  refine or_congr_right ⟨?_, ?_⟩
  · rintro ⟨⟨a, addr⟩, hlost, rfl⟩
    exact ⟨a, addr, hlost, rfl⟩
  · rintro ⟨a, addr, hlost, rfl⟩
    exact ⟨(a, addr), hlost, rfl⟩

/-- the handle of a node that is one itself is not given up -/
theorem netns_delete_not_mem_wireLinks (t : Topology) (h : t.validate = .ok ()) (n : Node)
    (hn : n ∈ t.nodes) (hkind : n.kind = .ok .netns) :
    Netns.delete n.name ∉ Trace.commands (t.wireLinks .release) := by
  intro hmem
  obtain ⟨up, hup⟩ := mem_surrendered none _ n.name hmem
  rw [wireLinks, surrendered_wireSites] at hup
  obtain ⟨a, ha, heq⟩ := List.mem_map.mp hup
  obtain ⟨m, hm, hname, hcontainer⟩ := t.exists_container_of_surrenders a ha
  -- the container that gives it up has the name of the node, so the two are one
  have hfind := t.node?_of_mem h m hm
  rw [hname, (Prod.mk.inj heq).2, t.node?_of_mem h n hn] at hfind
  obtain rfl := Option.some.inj hfind
  rw [hkind] at hcontainer
  cases hcontainer

/-- **The handle policy changes what it says and nothing else.**  Under either unit policy the same
sites fail with the same errors.  A wiring that succeeds under `keep` succeeds under `release`; the
commands of the second, except those that give up a handle, are those of the first, except those
that set the address of a device which moves into a container.  What is said differs by the
announcements that these addresses are lost.  The handles given up are those of the containers that
such devices move into, each directly behind the command that brings the device up, so a handle that
is a node itself is never given up, and none is under `keep`. -/
theorem policies_compared (t : Topology) (h : t.validate = .ok ()) (policy : UnitPolicy)
    (ds : Diagnostics) :
    (t.traces .release {} t.sites).map Trace.errors = (t.traces .keep {} t.sites).map Trace.errors ∧
      (∀ e, ((t.wireLinks .release).run policy ds).1 = .error e
        ↔ ((t.wireLinks .keep).run policy ds).1 = .error e) ∧
      ∀ kept ds', (t.wireLinks .keep).run policy ds = (.ok kept, ds') →
        ∃ released ds'', (t.wireLinks .release).run policy ds = (.ok released, ds'') ∧
          kept = (t.ledger .keep {} t.sites).flatMap (·.commands) ∧
          retaining released = (t.ledger .keep {} t.sites).flatMap Contribution.unaddressed ∧
          undropped ds''.toList = undropped ds'.toList ∧
          (∀ m, m ∈ droppedMessages ds'.toList ↔ m ∈ droppedMessages ds.toList) ∧
          (∀ m, m ∈ droppedMessages ds''.toList ↔ m ∈ droppedMessages ds.toList ∨
            ∃ a addr, (a, addr) ∈ lostAddresses .release t.sites ∧ m = warnDropped a addr) ∧
          surrendered none released
            = (surrenders .release t.sites).map (fun a => (some a, a.node)) ∧
          (∀ n ∈ t.nodes, n.kind = .ok .netns → Netns.delete n.name ∉ released) ∧
          surrendered none kept = [] := by
  have herrors := t.errors_wireLinks
  have hfail : ∀ e, ((t.wireLinks .release).run policy ds).1 = .error e
      ↔ ((t.wireLinks .keep).run policy ds).1 = .error e := by
    intro e
    rw [Trace.run_eq_error_iff, Trace.run_eq_error_iff, herrors]
  refine ⟨t.errors_traces {} t.sites, hfail, fun kept ds' hkeep => ?_⟩
  cases hrelease : (t.wireLinks .release).run policy ds with
  | mk outcome ds'' =>
  cases outcome with
  | error e =>
    have hkept := (hfail e).mp (by rw [hrelease])
    rw [hkeep] at hkept
    cases hkept
  | ok released =>
  obtain rfl := Trace.eq_commands_of_run_eq_ok _ policy ds ds' kept hkeep
  obtain rfl := Trace.eq_diagnostics_of_run_eq_ok _ policy ds ds' _ hkeep
  obtain rfl := Trace.eq_commands_of_run_eq_ok _ policy ds ds'' released hrelease
  obtain rfl := Trace.eq_diagnostics_of_run_eq_ok _ policy ds ds'' _ hrelease
  refine ⟨_, _, rfl, (t.ledger_commands .keep {} t.sites).symm, t.retaining_wireSites {} t.sites,
    undropped_pushAll ds _ _ (t.undropped_wireSites {} t.sites), fun m => ?_,
    t.mem_droppedMessages_wireLinks .release ds, t.surrendered_wireSites .release none {} t.sites,
    t.netns_delete_not_mem_wireLinks h, ?_⟩
  · rw [mem_droppedMessages_wireLinks, lostAddresses_keep]
    exact or_iff_left fun ⟨_, _, hlost, _⟩ => List.not_mem_nil hlost
  · rw [wireLinks, surrendered_wireSites, surrenders_keep]
    rfl

namespace Uplinks

/-- a container that a new device and a device of the host move into, with an interface that leads
nowhere between them -/
def container : Node where
  name := "R1"
  image := some "router"
  interfaces :=
    [ { name := "eth0", type := "veth", args := some "up0", addr := some "02:00:00:00:00:01" },
      { name := "net0", type := "bridge" },
      { name := "eth1", type := "phys" } ]

/-- a namespace that a device of the host moves into -/
def netns : Node where
  name := "N1"
  type := some "netns"
  interfaces := [{ name := "eth2", type := "phys", addr := some "02:00:00:00:00:02" }]

def topology : Topology where
  nodes := [container, netns]

end Uplinks

theorem policies_compared_uplinks : Uplinks.topology.validate = .ok () ∧
    ∃ kept ds released ds', (Uplinks.topology.wireLinks .keep).run .skip {} = (.ok kept, ds) ∧
      (Uplinks.topology.wireLinks .release).run .skip {} = (.ok released, ds') ∧
      undropped ds'.toList = undropped ds.toList ∧
      surrendered none released
        = [(some ⟨"R1", "eth0"⟩, "R1"), (some ⟨"R1", "eth1"⟩, "R1")] ∧
      Netns.delete "N1" ∉ released ∧ surrendered none kept = [] := by
  have hvalid : Uplinks.topology.validate = .ok () := by decide +kernel
  have hkeep := Trace.run_skip (Uplinks.topology.wireLinks .keep) {}
  obtain ⟨_, _, hruns⟩ := policies_compared Uplinks.topology hvalid .skip {}
  obtain ⟨released, ds', hrelease, _, _, hsame, _, _, hgiven, hnetns, hnone⟩ := hruns _ _ hkeep
  have hends : surrenders .release Uplinks.topology.sites = [⟨"R1", "eth0"⟩, ⟨"R1", "eth1"⟩] := by
    decide +kernel
  rw [hends] at hgiven
  have hstays := hnetns Uplinks.netns (by decide) (by decide +kernel)
  exact ⟨hvalid, _, _, released, ds', hkeep, hrelease, hsame, hgiven, hstays, hnone⟩

end Topology

end Netlab
