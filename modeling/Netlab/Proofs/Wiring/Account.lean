import Netlab.Proofs.Wiring.Links

/-!
# An account of the wiring

Under `skip` every interface of a node that can be created contributes to the wiring, and what it
does not wire it says.  What it contributes is told from the commands in front of it alone, since
what is remembered along the way are the links and the host ends that these commands make.

* `Contribution.Accounted`    what one site contributes behind the commands in front of it;
* `Topology.Wires.recorded`   one step remembers what it makes;
* `Topology.Wires.accounted`  and its contribution is accounted for;
* `Topology.balanced_ledger`  so is every contribution of a run;
* `Topology.wiring_accounted` the property: nothing is lost without a word.
-/

namespace Netlab

open Shell (Command)

/-! ## commands that make host ends -/

/-- the host end of the pair that a command makes from inside a namespace -/
def Shell.Command.hostEnd? : Command → Option String
  | .argv ["ip", "link", "add", _, "netns", _, "type", "veth", "peer", "name", p] => some p
  | _ => none

/-- the host ends that commands make, in order -/
def hostEndsMade (cmds : List Command) : List String := cmds.filterMap Command.hostEnd?

/-- the block of a bridge link makes its host end, and no other block makes one -/
theorem hostEndsMade_commands (l : Link) (n : String) (kind : NodeKind) (i : String)
    (addr : Option String) (handles : HandlePolicy) :
    hostEndsMade (l.commands n kind i addr handles) = match l with
      | .bridge switch => [Link.hostEnd switch n]
      | _ => [] := by
  have hroutine : ∀ c, l.Routine n i c → c.hostEnd? = none := by rintro _ ⟨⟩ <;> rfl
  rw [hostEndsMade, l.filterMap_commands_pair n kind i addr handles _ hroutine fun _ => rfl]
  cases l <;> rfl

namespace Topology

/-! ## contributions -/

/-- nothing stands against a link behind the commands `earlier` -/
def Admits (t : Topology) (earlier : List Command) (a : Endpoint) : Link → Prop
  | .direct peer i => s(a, ⟨peer, i⟩) ∉ linksMade earlier ∧ t.Usable peer
  | .bridge switch => Link.hostEnd switch a.node ∉ hostEndsMade earlier
  | .veth _ | .phys => True

/-- the error that an interface fails with behind the commands `earlier` -/
inductive Refuses (t : Topology) (earlier : List Command) (n : Node) (i : Interface) :
    CompileError → Prop
  /-- the interface does not say where it leads -/
  | unreadable (e : CompileError) (hlink : Link.parse n.name i = .error e) : Refuses t earlier n i e
  /-- the link leads to a node that cannot be created -/
  | stranded (peer peerInterface : String)
      (hlink : Link.parse n.name i = .ok (.direct peer peerInterface))
      (hnew : s(⟨n.name, i.name⟩, ⟨peer, peerInterface⟩) ∉ linksMade earlier)
      (hpeer : ¬ t.Usable peer) : Refuses t earlier n i (.uncreatablePeer n.name i.name peer)
  /-- the host end is there already -/
  | taken (switch : String) (hlink : Link.parse n.name i = .ok (.bridge switch))
      (hend : Link.hostEnd switch n.name ∈ hostEndsMade earlier) :
      Refuses t earlier n i (.duplicateBridgePeer n.name switch)

end Topology

/-- what one site adds to the commands and to the diagnostics -/
structure Contribution where
  site : Site
  commands : List Command
  diagnostics : List Diagnostic

/-- the contribution is what it has to be behind the commands `earlier` -/
inductive Contribution.Accounted (t : Topology) (handles : HandlePolicy) (earlier : List Command) :
    Contribution → Prop
  /-- a node that cannot be created -/
  | lost (e : CompileError) : Accounted t handles earlier ⟨.lost e, [], [.skipped e]⟩
  /-- the whole link, with what is to be said about it -/
  | whole (n : Node) (kind : NodeKind) (i : Interface) (l : Link)
      (hlink : Link.parse n.name i = .ok l) (hadmits : t.Admits earlier ⟨n.name, i.name⟩ l) :
      Accounted t handles earlier
        ⟨.live n kind i, l.commands n.name kind i.name i.addr handles,
          (t.linkWarnings handles ⟨n.name, i.name⟩ kind i.addr l).map .warning⟩
  /-- a link that is made already -/
  | repeated (n : Node) (kind : NodeKind) (i : Interface) (peer peerInterface : String)
      (hlink : Link.parse n.name i = .ok (.direct peer peerInterface))
      (hmade : s(⟨n.name, i.name⟩, ⟨peer, peerInterface⟩) ∈ linksMade earlier) :
      Accounted t handles earlier
        ⟨.live n kind i, Link.addressCommands n.name i.name i.addr,
          [.warning (warnTwice ⟨n.name, i.name⟩ ⟨peer, peerInterface⟩)]⟩
  /-- nothing, with the reason -/
  | refused (n : Node) (kind : NodeKind) (i : Interface) (e : CompileError)
      (hrefuses : t.Refuses earlier n i e) :
      Accounted t handles earlier ⟨.live n kind i, [], [.skipped e]⟩

namespace Topology

/-! ## what is remembered -/

/-- what is remembered behind the commands `earlier` -/
structure Recorded (earlier : List Command) (w : Wired) : Prop where
  links : w.links.reverse.map Endpoint.joined = linksMade earlier
  hostEnds : w.hostEnds.reverse = hostEndsMade earlier
  keys : ∀ key ∈ w.links, ∃ a b : Endpoint, key = a.pair b

theorem recorded_nil : Recorded [] {} where
  links := rfl
  hostEnds := rfl
  keys _ h := absurd h List.not_mem_nil

section
variable {earlier : List Command} {w : Wired}

theorem Recorded.mem_links (hw : Recorded earlier w) (a b : Endpoint) :
    a.pair b ∈ w.links ↔ s(a, b) ∈ linksMade earlier := by
  rw [← hw.links, List.mem_map]
  constructor
  · exact fun h => ⟨a.pair b, List.mem_reverse.mpr h, Endpoint.joined_pair a b⟩
  · rintro ⟨key, hkey, hjoined⟩
    have hkey := List.mem_reverse.mp hkey
    obtain ⟨c, d, rfl⟩ := hw.keys key hkey
    rw [Endpoint.joined_pair] at hjoined
    rwa [(Endpoint.pair_eq_iff a b c d).mpr hjoined.symm]

theorem Recorded.mem_hostEnds (hw : Recorded earlier w) (name : String) :
    name ∈ w.hostEnds ↔ name ∈ hostEndsMade earlier := by
  rw [← hw.hostEnds, List.mem_reverse]

theorem Recorded.free_iff (hw : Recorded earlier w) (t : Topology) (a : Endpoint) (l : Link) :
    t.Free w a l ↔ t.Admits earlier a l := by
  cases l with
  | direct peer i => exact and_congr_left fun _ => not_congr (hw.mem_links a ⟨peer, i⟩)
  | bridge switch => exact not_congr (hw.mem_hostEnds _)
  | veth | phys => exact Iff.rfl

end

/-! ## one step -/

section
variable {t : Topology} {handles : HandlePolicy} {w w' : Wired} {s : Site} {trace : Trace}
  {earlier : List Command}

/-- the host ends that a step makes are those that it adds -/
theorem Wires.host_ends_made (hstep : t.Wires handles w s trace w') :
    w'.hostEnds.reverse = w.hostEnds.reverse ++ hostEndsMade trace.commands := by
  cases hstep with
  | lost | unreadable | stranded | taken => exact (List.append_nil _).symm
  | repeated n kind i peer peerInterface hlink hkey =>
    rw [Trace.commands_warned_once, hostEndsMade, Link.filterMap_address _ _ _ _ fun _ => rfl,
      List.append_nil]
  | made n kind i l hlink hfree =>
    rw [Trace.commands_warned, hostEndsMade_commands]
    cases l with
    | bridge switch => exact List.reverse_cons
    | direct | veth | phys => exact (List.append_nil _).symm

theorem Wires.recorded (hstep : t.Wires handles w s trace w') (hw : Recorded earlier w) :
    Recorded (earlier ++ trace.commands) w' where
  links := by
    rw [hstep.links_made, hw.links]
    exact List.filterMap_append.symm
  hostEnds := by
    rw [hstep.host_ends_made, hw.hostEnds]
    exact List.filterMap_append.symm
  keys := hstep.keys_pair hw.keys

theorem Wires.accounted (hstep : t.Wires handles w s trace w') (hw : Recorded earlier w) :
    Contribution.Accounted t handles earlier ⟨s, trace.commands, trace.diagnostics⟩ := by
  cases hstep with
  | lost e => exact .lost e
  | unreadable n kind i e hlink => exact .refused n kind i e (.unreadable e hlink)
  | stranded n kind i peer peerInterface hlink hkey hpeer =>
    have hnew := mt (hw.mem_links ⟨n.name, i.name⟩ ⟨peer, peerInterface⟩).mpr hkey
    exact .refused n kind i _ (.stranded peer peerInterface hlink hnew hpeer)
  | taken n kind i switch hlink hend =>
    exact .refused n kind i _ (.taken switch hlink ((hw.mem_hostEnds _).mp hend))
  | repeated n kind i peer peerInterface hlink hkey =>
    have hmade := (hw.mem_links ⟨n.name, i.name⟩ ⟨peer, peerInterface⟩).mp hkey
    rw [Trace.commands_warned_once, Trace.diagnostics_warned_once]
    exact .repeated n kind i peer peerInterface hlink hmade
  | made n kind i l hlink hfree =>
    rw [Trace.commands_warned, Trace.diagnostics_warned]
    exact .whole n kind i l hlink ((hw.free_iff t _ l).mp hfree)

end

/-! ## a run -/

theorem mem_sites_lost (t : Topology) (n : Node) (hn : n ∈ t.nodes) (e : CompileError)
    (hk : n.creatable = .error e) : .lost e ∈ t.sites := by
  refine List.mem_flatMap.mpr ⟨n, hn, ?_⟩
  rw [n.sites_of_error e hk]
  exact List.mem_singleton_self _

/-- every contribution is what it has to be behind the commands `earlier` and those of the
contributions in front of it -/
def Balanced (t : Topology) (handles : HandlePolicy) : List Command → List Contribution → Prop
  | _, [] => True
  | earlier, c :: cs =>
    c.Accounted t handles earlier ∧ t.Balanced handles (earlier ++ c.commands) cs

/-- what the sites contribute one behind the other -/
def ledger (t : Topology) (handles : HandlePolicy) : Wired → List Site → List Contribution
  | _, [] => []
  | w, s :: ss =>
    let (trace, w') := t.wireSite handles w s
    ⟨s, trace.commands, trace.diagnostics⟩ :: t.ledger handles w' ss

section
variable (t : Topology) (handles : HandlePolicy)

theorem ledger_sites (w : Wired) (ss : List Site) :
    (t.ledger handles w ss).map (·.site) = ss := by
  induction ss generalizing w with
  | nil => rfl
  | cons s ss ih => rw [ledger, List.map_cons, ih]

theorem ledger_commands (w : Wired) (ss : List Site) :
    (t.ledger handles w ss).flatMap (·.commands) = Trace.commands (t.wireSites handles w ss) := by
  induction ss generalizing w with
  | nil => rfl
  | cons s ss ih => rw [ledger, List.flatMap_cons, ih, wireSites_cons, Trace.commands_append]

theorem ledger_diagnostics (w : Wired) (ss : List Site) :
    (t.ledger handles w ss).flatMap (·.diagnostics)
      = Trace.diagnostics (t.wireSites handles w ss) := by
  induction ss generalizing w with
  | nil => rfl
  | cons s ss ih => rw [ledger, List.flatMap_cons, ih, wireSites_cons, Trace.diagnostics_append]

theorem balanced_ledger (w : Wired) (earlier : List Command) (hw : Recorded earlier w)
    (ss : List Site) : t.Balanced handles earlier (t.ledger handles w ss) := by
  induction ss generalizing w earlier with
  | nil => trivial
  | cons s ss ih =>
    have hstep := t.wires_wireSite handles w s
    exact ⟨hstep.accounted hw, ih _ _ (hstep.recorded hw)⟩

end

/-! ## every site -/

/-- What becomes of an interface of a node that can be created: `earlier` are the commands of the
sites in front of it, `cmds` are all commands. -/
inductive Treated (t : Topology) (handles : HandlePolicy) (earlier cmds : List Command)
    (ds : Diagnostics) (n : Node) (kind : NodeKind) (i : Interface) : Prop
  /-- nothing stands against it, and its link is wired behind the sites in front of it -/
  | wired (l : Link) (hlink : Link.parse n.name i = .ok l)
      (hadmits : t.Admits earlier ⟨n.name, i.name⟩ l)
      (hblock : earlier ++ l.commands n.name kind i.name i.addr handles <+: cmds)
  /-- its link is made in front of it, so that its address is all that is left -/
  | warned (peer peerInterface : String)
      (hlink : Link.parse n.name i = .ok (.direct peer peerInterface))
      (hmade : s(⟨n.name, i.name⟩, ⟨peer, peerInterface⟩) ∈ linksMade earlier)
      (hblock : earlier ++ Link.addressCommands n.name i.name i.addr <+: cmds)
      (hwarn : .warning (warnTwice ⟨n.name, i.name⟩ ⟨peer, peerInterface⟩) ∈ ds.toList)
  /-- it fails behind the sites in front of it, and the error is recorded -/
  | skipped (e : CompileError) (hrefuses : t.Refuses earlier n i e)
      (hskip : .skipped e ∈ ds.toList)

section
variable {t : Topology} {handles : HandlePolicy} {earlier : List Command} {c : Contribution}

theorem Balanced.accounted (before after : List Contribution)
    (h : t.Balanced handles earlier (before ++ c :: after)) :
    c.Accounted t handles (earlier ++ before.flatMap (·.commands)) := by
  induction before generalizing earlier with
  | nil =>
    rw [List.flatMap_nil, List.append_nil]
    exact h.1
  | cons b before ih =>
    rw [List.flatMap_cons, ← List.append_assoc]
    exact ih h.2

/-- every site has its contribution, by what is in front of it -/
theorem Balanced.exists_accounted {ledger : List Contribution}
    (h : t.Balanced handles earlier ledger) (s : Site) (hs : s ∈ ledger.map (·.site)) :
    ∃ before c after, ledger = before ++ c :: after ∧ c.site = s ∧
      c.Accounted t handles (earlier ++ before.flatMap (·.commands)) := by
  obtain ⟨c, hc, rfl⟩ := List.mem_map.mp hs
  obtain ⟨before, after, rfl⟩ := List.append_of_mem hc
  exact ⟨before, c, after, rfl, rfl, h.accounted before after⟩

theorem skipped_of_lost (hc : c.Accounted t handles earlier) (e : CompileError)
    (hsite : c.site = .lost e) : .skipped e ∈ c.diagnostics := by
  cases hc with
  | lost e' =>
    cases hsite
    exact List.mem_singleton_self _
  | whole | repeated | refused => cases hsite

theorem treated_of_live (hc : c.Accounted t handles earlier) (n : Node) (kind : NodeKind)
    (i : Interface) (hsite : c.site = .live n kind i) (cmds : List Command) (ds : Diagnostics)
    (hcmds : earlier ++ c.commands <+: cmds) (hds : ∀ d ∈ c.diagnostics, d ∈ ds.toList) :
    t.Treated handles earlier cmds ds n kind i := by
  cases hc with
  | lost e => cases hsite
  | whole n kind i l hlink hadmits =>
    cases hsite
    exact .wired l hlink hadmits hcmds
  | repeated n kind i peer peerInterface hlink hmade =>
    cases hsite
    exact .warned peer peerInterface hlink hmade hcmds (hds _ (List.mem_singleton_self _))
  | refused n kind i e hrefuses =>
    cases hsite
    exact .skipped e hrefuses (hds _ (List.mem_singleton_self _))

end

/-- **Nothing is lost without a word.**  Under `skip` the wiring gives the commands of one
contribution for each interface of a node that can be created, in declaration order, and each is
accounted for: it is the whole link, or what is left to do for a link that is made already, or
nothing with the reason.  What is recorded is what the contributions say, each thing once, so every
interface is wired, warned about or left out with its error, by what the contributions in front of
its own have made, and every node that cannot be created is left out with its own. -/
theorem wiring_accounted (t : Topology) (handles : HandlePolicy) (ds : Diagnostics) :
    ∃ (ledger : List Contribution) (ds' : Diagnostics),
      (t.wireLinks handles).run .skip ds = (.ok (ledger.flatMap (·.commands)), ds') ∧
      ledger.map (·.site) = t.sites ∧
      t.Balanced handles [] ledger ∧
      (∀ d, d ∈ ds'.toList ↔ d ∈ ds.toList ∨ ∃ c ∈ ledger, d ∈ c.diagnostics) ∧
      ∀ n ∈ t.nodes,
        (∀ e, n.creatable = .error e → .skipped e ∈ ds'.toList) ∧
        ∀ kind, n.creatable = .ok kind → ∀ i ∈ n.interfaces,
          ∃ before c after, ledger = before ++ c :: after ∧ c.site = .live n kind i ∧
            t.Treated handles (before.flatMap (·.commands)) (ledger.flatMap (·.commands)) ds'
              n kind i := by
  have hbalanced := t.balanced_ledger handles {} [] recorded_nil t.sites
  have hsites := t.ledger_sites handles {} t.sites
  have hrun := Trace.run_skip (t.wireLinks handles) ds
  rw [wireLinks, ← ledger_commands, ← ledger_diagnostics] at hrun
  generalize t.ledger handles {} t.sites = ledger at hbalanced hsites hrun
  have hmem : ∀ d, d ∈ (ds.pushAll (ledger.flatMap (·.diagnostics))).toList
      ↔ d ∈ ds.toList ∨ ∃ c ∈ ledger, d ∈ c.diagnostics := by
    intro d
    rw [Diagnostics.mem_pushAll, List.mem_flatMap]
  have hrecorded : ∀ before c after, ledger = before ++ c :: after → ∀ d ∈ c.diagnostics,
      d ∈ (ds.pushAll (ledger.flatMap (·.diagnostics))).toList := by
    rintro before c after rfl d hd
    exact (hmem d).mpr (Or.inr ⟨c, List.mem_append_right _ (List.mem_cons_self ..), hd⟩)
  refine ⟨ledger, _, hrun, hsites, hbalanced, hmem, fun n hn => ⟨fun e he => ?_, ?_⟩⟩
  · have hs := t.mem_sites_lost n hn e he
    obtain ⟨before, c, after, hledger, hlost, haccounted⟩ :=
      hbalanced.exists_accounted (.lost e) (hsites ▸ hs)
    exact hrecorded before c after hledger _ (skipped_of_lost haccounted e hlost)
  · intro kind hk i hi
    have hs := (t.mem_sites_live n kind i).mpr ⟨hn, hk, hi⟩
    obtain ⟨before, c, after, hledger, hlive, haccounted⟩ :=
      hbalanced.exists_accounted (.live n kind i) (hsites ▸ hs)
    refine ⟨before, c, after, hledger, hlive, ?_⟩
    refine treated_of_live haccounted n kind i hlive _ _ ?_ (hrecorded before c after hledger)
    exact ⟨after.flatMap (·.commands), by rw [hledger]; simp⟩

end Topology

end Netlab
