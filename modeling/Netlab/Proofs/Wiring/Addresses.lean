import Netlab.Proofs.Pruning
import Netlab.Proofs.Wiring.Block
import Netlab.Proofs.Wiring.Realised

/-!
# Every address is set once, or its loss is announced

The interfaces with an address whose wiring does not fail are those that are left of the topology
(`Topology.pruned`).  The ones that move into a container whose handle is given up lose it.

* `Topology.Wires.addresses`, `Topology.Wires.dropped`   what one step sets and announces;
* `Topology.addresses_wireSites`, `Topology.dropped_wireSites`   and what a run does;
* `Topology.Wires.raised`         one step sets no address before the interface is up;
* `Topology.raised_wireSites`     neither does a run;
* `Topology.addresses_set_once`   the property.
-/

namespace Netlab

open Shell (Command)

/-! ## commands that set addresses -/

/-- the end whose address a command sets, and the address -/
def Shell.Command.sets? : Command → Option (Endpoint × String)
  | .argv ["ip", "netns", "exec", n, "ip", "link", "set", i, "address", addr] => some (⟨n, i⟩, addr)
  | _ => none

/-- the addresses that commands set, in order -/
def addressesSet (cmds : List Command) : List (Endpoint × String) := cmds.filterMap Command.sets?

theorem addressesSet_address (n i : String) (addr : Option String) :
    addressesSet (Link.addressCommands n i addr) = addr.toList.map (Prod.mk ⟨n, i⟩) := by
  cases addr <;> rfl

theorem sets?_of_routine {l : Link} {n i : String} {c : Command} (hc : l.Routine n i c) :
    c.sets? = none := by
  cases hc <;> rfl

theorem addressesSet_commands (l : Link) (n : String) (kind : NodeKind) (i : String)
    (addr : Option String) (handles : HandlePolicy) :
    addressesSet (l.commands n kind i addr handles)
      = if l.GivesUp kind handles then [] else addr.toList.map (Prod.mk ⟨n, i⟩) := by
  have hpair : (l.pairCommands n i).filterMap Command.sets? = [] := by cases l <;> rfl
  have haddress := addressesSet_address n i (if l.losesAddress kind handles then none else addr)
  rw [addressesSet, l.filterMap_commands n kind i addr handles _ fun _ => sets?_of_routine, hpair,
    List.nil_append]
  refine haddress.trans ?_
  simp only [l.losesAddress_eq_true_iff]
  split <;> rfl

/-! ## messages that announce a loss -/

/-- the message of a warning about an address -/
def Diagnostic.dropped? (d : Diagnostic) : Option String :=
  if d.severity = .warning ∧ "Address ".toList <+: d.message.toList then some d.message else none

/-- the messages of the warnings about addresses, in order -/
def droppedMessages (ds : List Diagnostic) : List String := ds.filterMap Diagnostic.dropped?

theorem droppedMessages_append (a b : List Diagnostic) :
    droppedMessages (a ++ b) = droppedMessages a ++ droppedMessages b := List.filterMap_append

/-- what is no warning is not among the messages anyway -/
theorem droppedMessages_warnings (ds : List Diagnostic) :
    droppedMessages (ds.filter (·.severity = .warning)) = droppedMessages ds := by
  rw [droppedMessages, List.filterMap_filter]
  refine List.filterMap_congr fun d _ => ?_
  by_cases hd : d.severity = .warning
  · rw [if_pos (decide_eq_true hd)]
  · rw [if_neg (by rwa [decide_eq_true_eq]), Diagnostic.dropped?, if_neg fun h => hd h.1]

theorem mem_droppedMessages_pushAll (ds : Diagnostics) (l : List Diagnostic) (m : String) :
    m ∈ droppedMessages (ds.pushAll l).toList
      ↔ m ∈ droppedMessages ds.toList ∨ m ∈ droppedMessages l := by
  simp only [droppedMessages, List.mem_filterMap, Diagnostics.mem_pushAll, or_and_right, exists_or]

theorem dropped?_warnDropped (a : Endpoint) (addr : String) :
    (Diagnostic.warning (warnDropped a addr)).dropped? = some (warnDropped a addr) := by
  refine if_pos ⟨rfl, ?_⟩
  show _ <+: (warnDropped a addr).toList
  delta warnDropped
  simp only [String.toList_append, List.append_assoc]
  exact List.prefix_append _ _

/-- a message that starts with other words is no such message -/
theorem dropped?_of_start (start message : String) (hm : start.toList <+: message.toList)
    (hlen : "Address ".toList.length ≤ start.toList.length)
    (hstart : ¬ "Address ".toList <+: start.toList) :
    (Diagnostic.warning message).dropped? = none :=
  if_neg fun h => hstart (List.prefix_of_prefix_length_le h.2 hm hlen)

theorem dropped?_warnTwice (a b : Endpoint) :
    (Diagnostic.warning (warnTwice a b)).dropped? = none := by
  refine dropped?_of_start "Direct link " _ ?_ (by decide) (by decide)
  delta warnTwice
  simp only [String.toList_append, List.append_assoc]
  exact List.prefix_append _ _

theorem dropped?_warnUndeclaredNode (a : Endpoint) (peer : String) :
    (Diagnostic.warning (warnUndeclaredNode a peer)).dropped? = none := by
  refine dropped?_of_start "Interface " _ ?_ (by decide) (by decide)
  delta warnUndeclaredNode
  simp only [String.toList_append, List.append_assoc]
  exact List.prefix_append _ _

theorem dropped?_warnUndeclaredSwitch (a : Endpoint) (switch : String) :
    (Diagnostic.warning (warnUndeclaredSwitch a switch)).dropped? = none := by
  refine dropped?_of_start "Interface " _ ?_ (by decide) (by decide)
  delta warnUndeclaredSwitch
  simp only [String.toList_append, List.append_assoc]
  exact List.prefix_append _ _

theorem droppedMessages_singleton (d : Diagnostic) : droppedMessages [d] = d.dropped?.toList := by
  rw [droppedMessages, List.filterMap_cons]
  cases d.dropped? <;> rfl

/-- the loss of an address is announced, and nothing else that is said about a link reads so -/
theorem droppedMessages_linkWarnings (t : Topology) (handles : HandlePolicy) (a : Endpoint)
    (kind : NodeKind) (addr : Option String) (l : Link) :
    droppedMessages ((t.linkWarnings handles a kind addr l).map .warning)
      = if l.GivesUp kind handles then addr.toList.map (warnDropped a) else [] := by
  have hmoves (hl : l.moves = true) : l.GivesUp kind handles ↔ handles.gives kind = true := by
    rw [HandlePolicy.gives_eq_true_iff, Link.GivesUp, hl]
    simp only [and_true]
  have hdrops : droppedMessages (((if handles.gives kind then addr.toList else []).map
      (warnDropped a)).map .warning)
      = if handles.gives kind then addr.toList.map (warnDropped a) else [] := by
    cases handles.gives kind with
    | false => rfl
    | true =>
      cases addr with
      | none => rfl
      | some x => exact (droppedMessages_singleton _).trans (by rw [dropped?_warnDropped]; rfl)
  cases l with
  | direct peer i =>
    rw [if_neg (Link.not_givesUp _ kind handles rfl), Topology.linkWarnings]
    split
    · exact (droppedMessages_singleton _).trans (by rw [dropped?_warnUndeclaredNode]; rfl)
    · rfl
  | bridge switch =>
    rw [if_neg (Link.not_givesUp _ kind handles rfl), Topology.linkWarnings]
    split
    · exact (droppedMessages_singleton _).trans (by rw [dropped?_warnUndeclaredSwitch]; rfl)
    · rfl
  | veth peer => simp only [hmoves rfl]; exact hdrops
  | phys => simp only [hmoves rfl]; exact hdrops

/-! ## sites -/

namespace Site

/-- the end that an interface is, and its address if it has one -/
def addr? : Site → Option (Endpoint × String)
  | .lost _ => none
  | .live n _ i => i.addr.map (Prod.mk ⟨n.name, i.name⟩)

/-- the handle of the node is given up before the interface can have its address -/
def drops (handles : HandlePolicy) : Site → Bool
  | .lost _ => false
  | .live n kind i =>
    match Link.parse n.name i with
    | .error _ => false
    | .ok l => decide (l.GivesUp kind handles)

theorem addr?_live (n : Node) (kind : NodeKind) (i : Interface) :
    (Site.live n kind i).addr?.toList = i.addr.toList.map (Prod.mk ⟨n.name, i.name⟩) := by
  show (i.addr.map _).toList = _
  cases i.addr <;> rfl

theorem drops_live (handles : HandlePolicy) (n : Node) (kind : NodeKind) (i : Interface) (l : Link)
    (hlink : Link.parse n.name i = .ok l) :
    (Site.live n kind i).drops handles = decide (l.GivesUp kind handles) := by
  rw [drops, hlink]

/-- an interface whose device stays where it was made keeps its address -/
theorem drops_of_stays (handles : HandlePolicy) (n : Node) (kind : NodeKind) (i : Interface)
    (l : Link) (hlink : Link.parse n.name i = .ok l) (hl : l.moves = false) :
    (Site.live n kind i).drops handles = false := by
  rw [drops_live handles n kind i l hlink, decide_eq_false (l.not_givesUp kind handles hl)]

end Site

/-- the addresses of the interfaces that can have them -/
def keptAddresses (handles : HandlePolicy) (ss : List Site) : List (Endpoint × String) :=
  (ss.filter (!·.drops handles)).filterMap Site.addr?

/-- the addresses of the interfaces that cannot have them -/
def lostAddresses (handles : HandlePolicy) (ss : List Site) : List (Endpoint × String) :=
  (ss.filter (·.drops handles)).filterMap Site.addr?

theorem keptAddresses_cons (handles : HandlePolicy) (s : Site) (ss : List Site) :
    keptAddresses handles (s :: ss)
      = (if s.drops handles then [] else s.addr?.toList) ++ keptAddresses handles ss := by
  cases hs : s.drops handles with
  | true => simp [keptAddresses, hs]
  | false => cases ha : s.addr? <;> simp [keptAddresses, hs, ha]

theorem lostAddresses_cons (handles : HandlePolicy) (s : Site) (ss : List Site) :
    lostAddresses handles (s :: ss)
      = (if s.drops handles then s.addr?.toList else []) ++ lostAddresses handles ss := by
  cases hs : s.drops handles with
  | true => cases ha : s.addr? <;> simp [lostAddresses, hs, ha]
  | false => simp [lostAddresses, hs]

namespace Topology

/-! ## what is set and what is announced -/

section
variable {t : Topology} {handles : HandlePolicy} {w w' : Wired} {s : Site} {trace : Trace}

/-- a step announces the loss of the address of its interface, and no other -/
theorem Wires.dropped (hstep : t.Wires handles w s trace w') :
    droppedMessages trace.diagnostics
      = (if s.drops handles then s.addr?.toList else []).map
          fun (a, addr) => warnDropped a addr := by
  -- what fails is told by no warning, and gives up no handle
  have hfails : ∀ e, droppedMessages [.skipped e] = [] := fun e => rfl
  cases hstep with
  | lost e => exact hfails e
  | unreadable n kind i e hlink =>
    rw [Site.drops, hlink]
    exact hfails e
  | repeated n kind i peer peerInterface hlink hkey =>
    rw [Site.drops_of_stays handles n kind i _ hlink rfl, Trace.diagnostics_warned_once,
      droppedMessages_singleton, dropped?_warnTwice]
    rfl
  | stranded n kind i peer peerInterface hlink hkey hpeer =>
    rw [Site.drops_of_stays handles n kind i _ hlink rfl]
    exact hfails _
  | taken n kind i switch hlink hend =>
    rw [Site.drops_of_stays handles n kind i _ hlink rfl]
    exact hfails _
  | made n kind i l hlink hfree =>
    rw [Trace.diagnostics_warned, droppedMessages_linkWarnings,
      Site.drops_live handles n kind i l hlink, Site.addr?_live]
    by_cases hup : l.GivesUp kind handles
    · rw [if_pos hup, decide_eq_true hup, if_pos rfl, List.map_map]
      rfl
    · rw [if_neg hup, decide_eq_false hup]
      rfl

/-- a step that does not fail sets the address of its interface unless the address is lost -/
theorem Wires.addresses (hstep : t.Wires handles w s trace w') (herrors : trace.errors = []) :
    addressesSet trace.commands = if s.drops handles then [] else s.addr?.toList := by
  cases hstep with
  | lost | unreadable | stranded | taken => cases herrors
  | repeated n kind i peer peerInterface hlink hkey =>
    rw [Site.drops_of_stays handles n kind i _ hlink rfl, Trace.commands_warned_once,
      addressesSet_address, Site.addr?_live]
    rfl
  | made n kind i l hlink hfree =>
    rw [Trace.commands_warned, addressesSet_commands, Site.drops_live handles n kind i l hlink,
      Site.addr?_live]
    by_cases hup : l.GivesUp kind handles
    · rw [if_pos hup, decide_eq_true hup, if_pos rfl]
    · rw [if_neg hup, decide_eq_false hup]
      rfl

end

section
variable (t : Topology) (handles : HandlePolicy)

/-- what a run announces, whether or not sites fail in it -/
theorem dropped_wireSites (w : Wired) (ss : List Site) :
    droppedMessages (Trace.diagnostics (t.wireSites handles w ss))
      = (lostAddresses handles ss).map fun (a, addr) => warnDropped a addr := by
  induction ss generalizing w with
  | nil => rfl
  | cons s ss ih =>
    rw [wireSites_cons, Trace.diagnostics_append, droppedMessages_append,
      (t.wires_wireSite handles w s).dropped, ih, lostAddresses_cons, List.map_append]

theorem addresses_wireSites (w : Wired) (ss : List Site)
    (herrors : Trace.errors (t.wireSites handles w ss) = []) :
    addressesSet (Trace.commands (t.wireSites handles w ss)) = keptAddresses handles ss := by
  induction ss generalizing w with
  | nil => rfl
  | cons s ss ih =>
    rw [wireSites_cons, Trace.errors_append, List.append_eq_nil_iff] at herrors
    rw [wireSites_cons, Trace.commands_append, addressesSet, List.filterMap_append,
      keptAddresses_cons]
    exact congrArg₂ (· ++ ·) ((t.wires_wireSite handles w s).addresses herrors.1) (ih _ herrors.2)

/-- the wiring of the whole topology sets and announces what the wiring of what is left of it
does -/
theorem addresses_wireLinks :
    addressesSet (t.wireLinks handles).commands = keptAddresses handles (t.pruned handles).sites ∧
      droppedMessages (t.wireLinks handles).diagnostics
        = (lostAddresses handles (t.pruned handles).sites).map fun (a, addr) =>
            warnDropped a addr := by
  have hpruned := t.wireLinks_pruned handles
  have herrors : Trace.errors ((t.pruned handles).wireLinks handles) = [] := by
    rw [hpruned, Trace.errors_passed]
  have hset := (t.pruned handles).addresses_wireSites handles {} _ herrors
  have hdropped := (t.pruned handles).dropped_wireSites handles {} (t.pruned handles).sites
  rw [← wireLinks, hpruned] at hset hdropped
  rw [Trace.commands_passed] at hset
  rw [Trace.diagnostics_passed, droppedMessages_warnings] at hdropped
  exact ⟨hset, hdropped⟩

end

end Topology

/-! ## up before the address -/

/-- the commands `earlier` bring up the end -/
def Raises (earlier : List Command) (a : Endpoint) : Prop :=
  Netns.linkUp a.node a.interface ∈ earlier

/-- every address is set behind the command that brings its end up, be it among the commands
`earlier` -/
def Raised : List Command → List Command → Prop
  | _, [] => True
  | earlier, c :: cs => (∀ p ∈ c.sets?, Raises earlier p.1) ∧ Raised (earlier ++ [c]) cs

theorem raised_append (earlier a b : List Command) :
    Raised earlier (a ++ b) ↔ Raised earlier a ∧ Raised (earlier ++ a) b := by
  induction a generalizing earlier with
  | nil => rw [List.nil_append, List.append_nil, Raised, true_and]
  | cons c a ih =>
    rw [List.cons_append, Raised, Raised, ih, and_assoc, List.append_assoc, List.singleton_append]

theorem raised_of_addressesSet_nil (earlier cmds : List Command) (h : addressesSet cmds = []) :
    Raised earlier cmds := by
  have hnone := List.filterMap_eq_nil_iff.mp h
  clear h
  induction cmds generalizing earlier with
  | nil => trivial
  | cons c cs ih =>
    obtain ⟨hc, hcs⟩ := List.forall_mem_cons.mp hnone
    refine ⟨fun p hp => ?_, ih _ hcs⟩
    rw [hc] at hp
    cases hp

theorem raised_address (earlier : List Command) (a : Endpoint) (addr : Option String)
    (h : Raises earlier a) : Raised earlier (Link.addressCommands a.node a.interface addr) := by
  cases addr with
  | none => trivial
  | some x =>
    refine ⟨fun p hp => ?_, trivial⟩
    obtain rfl := Option.some.inj hp
    exact h

theorem raised_commands (earlier : List Command) (l : Link) (n : String) (kind : NodeKind)
    (i : String) (addr : Option String) (handles : HandlePolicy) :
    Raised earlier (l.commands n kind i addr handles) := by
  have hmove : Netns.linkUp n i ∈ Link.moveCommands n kind i handles := by
    simp [Link.moveCommands]
  have hmoves : addressesSet (Link.moveCommands n kind i handles) = [] :=
    List.filterMap_eq_nil_iff.mpr fun c hc =>
      sets?_of_routine (Link.routine_of_mem_move l n kind i handles c hc)
  have haddress : ∀ (cmds : List Command) (addr : Option String), Netns.linkUp n i ∈ cmds →
      addressesSet cmds = [] →
        Raised earlier (cmds ++ Link.addressCommands n i addr) := by
    intro cmds addr hup hnil
    rw [raised_append]
    exact ⟨raised_of_addressesSet_nil _ _ hnil,
      raised_address _ ⟨n, i⟩ _ (List.mem_append_right _ hup)⟩
  cases l with
  | direct peer peerInterface => exact haddress _ _ (by simp [Link.directCommands]) rfl
  | bridge switch => exact haddress _ _ (by simp [Link.bridgeCommands]) rfl
  | veth peer =>
    rw [Link.commands, Link.vethCommands, raised_append]
    refine ⟨haddress _ _ (List.mem_cons_of_mem _ hmove) ?_, raised_of_addressesSet_nil _ _ rfl⟩
    exact (List.filterMap_cons_none rfl).trans hmoves
  | phys => exact haddress _ _ hmove hmoves

/-- behind a list of commands whose addresses are set in time, the end of each is up -/
theorem Raised.mem_before {earlier cmds : List Command} (h : Raised earlier cmds)
    (before after : List Command) (n i addr : String)
    (hcmds : cmds = before ++ Netns.setAddress n i addr :: after) :
    Netns.linkUp n i ∈ earlier ++ before := by
  rw [hcmds, raised_append] at h
  exact h.2.1 (⟨n, i⟩, addr) rfl

namespace Topology

/-- both ends of every link made so far were brought up -/
def LinksUp (earlier : List Command) (w : Wired) : Prop :=
  ∀ key ∈ w.links, Raises earlier key.1 ∧ Raises earlier key.2

theorem LinksUp.mono {earlier : List Command} {w : Wired} (hw : LinksUp earlier w)
    (cmds : List Command) : LinksUp (earlier ++ cmds) w := fun key hkey =>
  ⟨List.mem_append_left _ (hw key hkey).1, List.mem_append_left _ (hw key hkey).2⟩

/-- a step sets no address before its end is up: the end of a link that is made already is up since
the link was made -/
theorem Wires.raised {t : Topology} {handles : HandlePolicy} {w w' : Wired} {s : Site}
    {trace : Trace} {earlier : List Command} (hstep : t.Wires handles w s trace w')
    (hw : LinksUp earlier w) :
    Raised earlier trace.commands ∧ LinksUp (earlier ++ trace.commands) w' := by
  cases hstep with
  | lost | unreadable | stranded | taken => exact ⟨trivial, hw.mono []⟩
  | repeated n kind i peer peerInterface hlink hkey =>
    have hup := ((Endpoint.pair_forall (Raises earlier) _ _).mp (hw _ hkey)).1
    rw [Trace.commands_warned_once]
    exact ⟨raised_address earlier ⟨n.name, i.name⟩ i.addr hup, hw.mono _⟩
  | made n kind i l hlink hfree =>
    rw [Trace.commands_warned]
    refine ⟨raised_commands earlier l n.name kind i.name i.addr handles, ?_⟩
    cases l with
    | bridge | veth | phys => exact hw.mono _
    | direct peer peerInterface =>
      refine List.forall_mem_cons.mpr ⟨(Endpoint.pair_forall (Raises _) _ _).mpr ?_, hw.mono _⟩
      simp [Raises, Link.commands, Link.directCommands]

theorem raised_wireSites (t : Topology) (handles : HandlePolicy) (earlier : List Command)
    (w : Wired) (hw : LinksUp earlier w) (ss : List Site) :
    Raised earlier (Trace.commands (t.wireSites handles w ss)) := by
  induction ss generalizing earlier w with
  | nil => trivial
  | cons s ss ih =>
    obtain ⟨hraised, hw'⟩ := (t.wires_wireSite handles w s).raised hw
    rw [wireSites_cons, Trace.commands_append, raised_append]
    exact ⟨hraised, ih _ _ hw'⟩

/-- **Every address is set once, or its loss is announced.**  A wiring that succeeds sets, in order,
the addresses of the interfaces whose wiring does not fail, except those of a device that moves into
a container whose handle is given up.  Each is set behind the command that brings its interface up.
The messages about lost addresses are those for the interfaces excepted. -/
theorem addresses_set_once (t : Topology) (o : CompileOptions) (ds ds' : Diagnostics)
    (cmds : List Command)
    (hrun : (t.wireLinks o.handles).run o.policy ds = (.ok cmds, ds')) :
    addressesSet cmds = keptAddresses o.handles (t.pruned o.handles).sites ∧
      (∀ before after n i addr, cmds = before ++ Netns.setAddress n i addr :: after →
        Netns.linkUp n i ∈ before) ∧
      ∀ m, m ∈ droppedMessages ds'.toList ↔ m ∈ droppedMessages ds.toList ∨
        ∃ a addr, (a, addr) ∈ lostAddresses o.handles (t.pruned o.handles).sites
          ∧ m = warnDropped a addr := by
  obtain rfl := Trace.eq_commands_of_run_eq_ok _ o.policy ds ds' cmds hrun
  obtain rfl := Trace.eq_diagnostics_of_run_eq_ok _ o.policy ds ds' _ hrun
  obtain ⟨hset, hdropped⟩ := t.addresses_wireLinks o.handles
  refine ⟨hset, fun before after n i addr hcmds => ?_, fun m => ?_⟩
  · have hraised := t.raised_wireSites o.handles [] {} (fun key hkey => nomatch hkey) t.sites
    exact hraised.mem_before before after n i addr hcmds
  · rw [mem_droppedMessages_pushAll, hdropped, List.mem_map]
    refine or_congr_right ⟨?_, ?_⟩
    · rintro ⟨⟨a, addr⟩, hlost, rfl⟩
      exact ⟨a, addr, hlost, rfl⟩
    · rintro ⟨a, addr, hlost, rfl⟩
      exact ⟨(a, addr), hlost, rfl⟩

namespace Labelled

/-- A container with addresses on a direct link and on a device that moves into it, and one on an
interface that leads nowhere. -/
def near : Node where
  name := "R1"
  image := some "router"
  interfaces :=
    [ { name := "net0", type := "direct", args := some "R2#net0",
        addr := some "02:00:00:00:00:01" },
      { name := "eth0", type := "phys", addr := some "02:00:00:00:00:02" },
      { name := "net1", type := "bridge", addr := some "02:00:00:00:00:03" } ]

/-- a container that declares the direct link once more, for the address of its own end -/
def far : Node where
  name := "R2"
  image := some "router"
  interfaces :=
    [{ name := "net0", type := "direct", args := some "R1#net0", addr := some "02:00:00:00:00:04" }]

def topology : Topology where
  nodes := [near, far]

end Labelled

theorem addresses_set_once_labelled : ∃ cmds ds,
    (Labelled.topology.wireLinks .release).run .skip {} = (.ok cmds, ds) ∧
      addressesSet cmds
        = [(⟨"R1", "net0"⟩, "02:00:00:00:00:01"), (⟨"R2", "net0"⟩, "02:00:00:00:00:04")] ∧
      ∀ m, m ∈ droppedMessages ds.toList ↔ m = warnDropped ⟨"R1", "eth0"⟩ "02:00:00:00:00:02" := by
  have hrun := Trace.run_skip (Labelled.topology.wireLinks .release) {}
  obtain ⟨hset, _, hdropped⟩ := addresses_set_once Labelled.topology ⟨.skip, .release⟩ {} _ _ hrun
  have hkept : keptAddresses .release (Labelled.topology.pruned .release).sites
      = [(⟨"R1", "net0"⟩, "02:00:00:00:00:01"), (⟨"R2", "net0"⟩, "02:00:00:00:00:04")] := by
    decide +kernel
  have hlost : lostAddresses .release (Labelled.topology.pruned .release).sites
      = [(⟨"R1", "eth0"⟩, "02:00:00:00:00:02")] := by decide +kernel
  refine ⟨_, _, hrun, hset.trans hkept, fun m => ?_⟩
  rw [hdropped, hlost]
  simp [droppedMessages]

end Topology

end Netlab
