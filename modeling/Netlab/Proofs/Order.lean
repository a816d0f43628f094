import Netlab.Proofs.Host.Blocks
import Netlab.Proofs.Phases

/-!
# Commands come in an order that works

Starting from a host on which nothing is, every generated command of a script that brings a
topology up finds what it needs: the namespaces and containers that it names, the devices it works
on, the bridge it attaches to.  Two kinds of things are granted: what no script makes (loopback
devices, devices of the host that an interface claims), and what is not declared, for which a
warning is recorded.

* `Topology.Prepared`              what is there once the nodes are mounted;
* `Topology.Linked`                the ends of the links made so far are there;
* `Topology.Wires.builds`          one site of the wiring runs and keeps this;
* `Topology.builds_wireSites`      so the wiring of all sites runs;
* `Topology.generated_served`      the property, of whole scripts.
-/

namespace Netlab

open Shell (Command)
open Host (Resource State Runs Builds Makes Sweeps)

/-! ## what is granted -/

namespace Topology

/-- what no script makes: loopback devices, and devices of the host that an interface claims -/
def Given (t : Topology) : Resource → Prop
  | .device (some _) d => d = "lo"
  | .device none d =>
    ∃ n ∈ t.nodes, ∃ i ∈ n.interfaces, i.name = d ∧ Link.parse n.name i = .ok .phys
  | _ => False

/-- what an interface leads to and is not declared, a warning being recorded -/
def Undeclared (t : Topology) (ds : Diagnostics) : Resource → Prop
  | .netns peer => t.node? peer = none ∧
    ∃ n ∈ t.nodes, ∃ i ∈ n.interfaces, ∃ peerInterface,
      Link.parse n.name i = .ok (.direct peer peerInterface)
        ∧ .warning (warnUndeclaredNode ⟨n.name, i.name⟩ peer) ∈ ds.toList
  | .bridge switch => t.switch? switch = none ∧
    ∃ n ∈ t.nodes, ∃ i ∈ n.interfaces, Link.parse n.name i = .ok (.bridge switch)
        ∧ .warning (warnUndeclaredSwitch ⟨n.name, i.name⟩ switch) ∈ ds.toList
  | _ => False

/-- what a script may count on without making it -/
def Granted (t : Topology) (ds : Diagnostics) (r : Resource) : Prop := t.Given r ∨ t.Undeclared ds r

end Topology

/-! ## traces -/

theorem builds_commands {granted : Resource → Prop} {h : State} (trace : Trace)
    (hblock : ∀ cmds, .emit cmds ∈ trace → Builds granted h cmds) :
    Builds granted h trace.commands := by
  rw [Trace.commands_eq]
  refine .flatMap _ _ fun r hr => ?_
  cases r with
  | emit cmds => exact hblock cmds hr
  | warn | fail => exact .nil h

theorem subset_commands (trace : Trace) (cmds : List Command) (hemit : .emit cmds ∈ trace) :
    cmds ⊆ trace.commands :=
  fun c hc => (Trace.mem_commands trace c).mpr ⟨cmds, hemit, hc⟩

namespace Topology

/-! ## switches and nodes -/

/-- what is there once the nodes are mounted -/
structure Prepared (t : Topology) (h : State) : Prop where
  bridge : ∀ s ∈ t.switches, .bridge s.name ∈ h
  container : ∀ n ∈ t.nodes, n.creatable = .ok .container → .container n.name ∈ h
  netns : ∀ n ∈ t.nodes, ∀ kind, n.creatable = .ok kind → .netns n.name ∈ h

theorem Prepared.mono {t : Topology} {h h' : State} (hp : t.Prepared h) (hsub : h ⊆ h') :
    t.Prepared h' where
  bridge s hs := hsub (hp.bridge s hs)
  container n hn hk := hsub (hp.container n hn hk)
  netns n hn kind hk := hsub (hp.netns n hn kind hk)

section
variable (t : Topology) (ds : Diagnostics) (h : State)

theorem builds_createSwitches : Builds (t.Granted ds) h t.createSwitches :=
  .flatMap _ _ fun s _ => builds_bridgeCreate s.name

theorem builds_createNodes : Builds (t.Granted ds) h t.createNodes.commands := by
  refine builds_commands _ fun cmds hcmds => ?_
  obtain ⟨n, _, kind, _, hcreate⟩ := (t.emit_mem_createNodes cmds).mp hcmds
  exact builds_create (fun _ => Or.inl rfl) n kind cmds hcreate

theorem makes_createNodes (n : Node) (hn : n ∈ t.nodes) (hk : n.creatable = .ok .container) :
    Makes t.createNodes.commands (.container n.name) := by
  obtain ⟨_, cmds, hcreate⟩ := (n.creatable_eq_ok .container).mp hk
  refine (makes_container n cmds hcreate).mono (subset_commands _ cmds ?_)
  exact (t.emit_mem_createNodes cmds).mpr ⟨n, hn, .container, hk, hcreate⟩

theorem builds_mountNetns
    (hcontainer : ∀ n ∈ t.nodes, n.creatable = .ok .container → .container n.name ∈ h) :
    Builds (t.Granted ds) h t.mountNetns.commands := by
  refine builds_commands _ fun cmds hcmds => ?_
  obtain ⟨n, hn, kind, hk, rfl⟩ := (t.emit_mem_mountNetns cmds).mp hcmds
  exact builds_mount kind n.name fun hc => hcontainer n hn (hc ▸ hk)

theorem builds_preparation : Builds (t.Granted ds) h t.preparation := by
  refine (t.builds_createSwitches ds h).append ((t.builds_createNodes ds h).append_walk ?_)
  refine t.builds_mountNetns ds _ fun n hn hk => ?_
  exact (t.builds_createNodes ds h).mem_walk (t.makes_createNodes n hn hk)

theorem prepared_walk : t.Prepared (h.walk t.preparation) := by
  have hb : Builds (t.Granted {}) h t.preparation := t.builds_preparation {} h
  constructor
  · intro s hs
    refine hb.mem_walk ((makes_bridge s.name).mono fun c hc => ?_)
    exact List.mem_append_left _ (List.mem_flatMap.mpr ⟨s, hs, hc⟩)
  · intro n hn hk
    refine hb.mem_walk ((t.makes_createNodes n hn hk).mono fun c hc => ?_)
    exact List.mem_append_right _ (List.mem_append_left _ hc)
  · intro n hn kind hk
    obtain ⟨_, cmds, hcreate⟩ := (n.creatable_eq_ok kind).mp hk
    refine hb.mem_walk ((makes_netns n kind cmds hcreate).mono fun c hc => ?_)
    -- the two blocks of a node are far apart, in the phases of creation and of mounting
    refine List.mem_append_right _ (List.mem_append.mpr ((List.mem_append.mp hc).imp ?_ ?_))
    · exact fun hc => subset_commands _ cmds
        ((t.emit_mem_createNodes cmds).mpr ⟨n, hn, kind, hk, hcreate⟩) hc
    · exact fun hc => subset_commands _ _
        ((t.emit_mem_mountNetns _).mpr ⟨n, hn, kind, hk, rfl⟩) hc

theorem builds_configure (hp : t.Prepared h) : Builds (t.Granted ds) h t.configure.commands := by
  refine builds_commands _ fun cmds hcmds => ?_
  obtain ⟨config, _, n, hfind, kind, hk, rfl⟩ := (t.emit_mem_configure cmds).mp hcmds
  have hn : n ∈ t.nodes := t.node?_mem config.name n hfind
  refine .map _ _ (Host.effect?_exec kind n.name) ?_ config.cmds
  rw [List.forall_mem_singleton]
  cases kind with
  | container => exact Or.inl (hp.container n hn hk)
  | netns => exact Or.inl (hp.netns n hn .netns hk)

end

/-! ## links -/

/-- both ends of every link made so far are there -/
def Linked (h : State) (w : Wired) : Prop :=
  ∀ k ∈ w.links, .device (some k.1.node) k.1.interface ∈ h
    ∧ .device (some k.2.node) k.2.interface ∈ h

theorem Linked.mono {h h' : State} {w : Wired} (hw : Linked h w) (hsub : h ⊆ h') : Linked h' w :=
  fun k hk => (hw k hk).imp (fun hin => hsub hin) fun hin => hsub hin

section
variable (t : Topology) (ds : Diagnostics)

/-- a name that a direct link may lead to has a namespace, or a warning is recorded -/
theorem netns_of_made (h : State) (hp : t.Prepared h) (handles : HandlePolicy) (n : Node)
    (hn : n ∈ t.nodes) (kind : NodeKind) (i : Interface) (hi : i ∈ n.interfaces)
    (peer peerInterface : String) (hlink : Link.parse n.name i = .ok (.direct peer peerInterface))
    (hpeer : t.Usable peer)
    (hds : ∀ m ∈ t.linkWarnings handles ⟨n.name, i.name⟩ kind i.addr (.direct peer peerInterface),
      .warning m ∈ ds.toList) : .netns peer ∈ h ∨ t.Granted ds (.netns peer) := by
  cases hfind : t.node? peer with
  | some m =>
    obtain ⟨kind', hk⟩ := hpeer m hfind
    have hname : m.name = peer := t.node?_name peer m hfind
    rw [← hname]
    exact Or.inl (hp.netns m (t.node?_mem peer m hfind) kind' hk)
  | none =>
    rw [linkWarnings, if_pos hfind, List.forall_mem_singleton] at hds
    exact Or.inr (Or.inr ⟨hfind, n, hn, i, hi, peerInterface, hlink, hds⟩)

/-- a bridge that an interface attaches to is there, or a warning is recorded -/
theorem bridge_of_made (h : State) (hp : t.Prepared h) (handles : HandlePolicy) (n : Node)
    (hn : n ∈ t.nodes) (kind : NodeKind) (i : Interface) (hi : i ∈ n.interfaces) (switch : String)
    (hlink : Link.parse n.name i = .ok (.bridge switch))
    (hds : ∀ m ∈ t.linkWarnings handles ⟨n.name, i.name⟩ kind i.addr (.bridge switch),
      .warning m ∈ ds.toList) : .bridge switch ∈ h ∨ t.Granted ds (.bridge switch) := by
  cases hfind : t.switch? switch with
  | some s =>
    have hname : s.name = switch := t.switch?_name switch s hfind
    rw [← hname]
    exact Or.inl (hp.bridge s (t.switch?_mem switch s hfind))
  | none =>
    rw [linkWarnings, if_pos hfind, List.forall_mem_singleton] at hds
    exact Or.inr (Or.inr ⟨hfind, n, hn, i, hi, hlink, hds⟩)

end

/-- the wiring of a site runs, and the ends of the links made are there afterwards -/
theorem Wires.builds {t : Topology} {w w' : Wired} {s : Site} {trace : Trace}
    (hstep : t.Wires .keep w s trace w') (hs : s ∈ t.sites) (ds : Diagnostics)
    (hds : ∀ d ∈ trace.diagnostics, d ∈ ds.toList) (h : State) (hp : t.Prepared h)
    (hw : Linked h w) :
    Builds (t.Granted ds) h trace.commands ∧ Linked (h.walk trace.commands) w' := by
  cases hstep with
  | lost | unreadable | stranded | taken => exact ⟨.nil h, hw⟩
  | repeated n kind i peer peerInterface hlink hkey =>
    -- only the address of this end is set, and the end is there from the first declaration
    obtain ⟨hn, hk, hi⟩ := (t.mem_sites_live n kind i).mp hs
    have hends := hw _ hkey
    rw [Endpoint.pair_forall (fun e => .device (some e.node) e.interface ∈ h)] at hends
    have hb : Builds (t.Granted ds) h (Link.addressCommands n.name i.name i.addr) :=
      builds_address n.name i.name i.addr (hp.netns n hn kind hk) hends.1
    rw [Trace.commands_warned_once]
    exact ⟨hb, hw.mono hb.subset⟩
  | made n kind i l hlink hfree =>
    obtain ⟨hn, hk, hi⟩ := (t.mem_sites_live n kind i).mp hs
    rw [Trace.diagnostics_warned, List.forall_mem_map] at hds
    have hb : Builds (t.Granted ds) h (l.commands n.name kind i.name i.addr .keep) := by
      refine builds_link l n.name kind i.name i.addr (hp.netns n hn kind hk) ?_ ?_ ?_
      · rintro peer j rfl
        exact t.netns_of_made ds h hp .keep n hn kind i hi peer j hlink hfree.2 hds
      · rintro b rfl
        exact t.bridge_of_made ds h hp .keep n hn kind i hi b hlink hds
      · rintro rfl
        exact Or.inl ⟨n, hn, i, hi, rfl, hlink⟩
    rw [Trace.commands_warned]
    refine ⟨hb, ?_⟩
    cases l with
    | bridge | veth | phys => exact hw.mono hb.subset
    | direct peer j =>
      intro k hmem
      obtain rfl | hmem := List.mem_cons.mp hmem
      · obtain ⟨ha, hpeer⟩ := makes_ends n.name peer kind i.name j i.addr .keep
        rw [Endpoint.pair_forall (fun e => .device (some e.node) e.interface ∈ State.walk h _)]
        exact ⟨hb.mem_walk ha, hb.mem_walk hpeer⟩
      · exact hw.mono hb.subset k hmem

theorem builds_wireSites (t : Topology) (ds : Diagnostics) (h : State) (hp : t.Prepared h)
    (w : Wired) (hw : Linked h w) (ss : List Site) (hss : ss ⊆ t.sites)
    (hds : ∀ d ∈ Trace.diagnostics (t.wireSites .keep w ss), d ∈ ds.toList) :
    Builds (t.Granted ds) h (Trace.commands (t.wireSites .keep w ss)) := by
  induction ss generalizing h w with
  | nil => exact .nil h
  | cons s ss ih =>
    rw [wireSites_cons, Trace.diagnostics_append, List.forall_mem_append] at hds
    rw [wireSites_cons, Trace.commands_append]
    have hstep := t.wires_wireSite .keep w s
    obtain ⟨hb, hw'⟩ := hstep.builds (hss (List.mem_cons_self ..)) ds hds.1 h hp hw
    refine hb.append_walk (ih _ (hp.mono hb.subset) _ hw' ?_ hds.2)
    exact fun s' hs' => hss (List.mem_cons_of_mem _ hs')

/-! ## scripts -/

theorem sweeps_delete (t : Topology) : Sweeps t.delete.commands := by
  intro c hc
  obtain ⟨cmds, hcmds, hc⟩ := (Trace.mem_commands _ c).mp hc
  obtain hcmds | hcmds := List.mem_append.mp hcmds
  · obtain ⟨n, _, hn⟩ := List.mem_map.mp hcmds
    obtain ⟨kind, _, h⟩ := (bind_eq_ok _ _ _).mp ((Report.ofUnit_eq_emit _ cmds).mp hn.symm)
    obtain rfl := Except.ok.inj h
    exact sweeps_nodeDelete kind n.name c hc
  · obtain rfl := Report.emit.inj (List.mem_singleton.mp hcmds)
    obtain ⟨s, _, rfl⟩ := List.mem_map.mp hc
    exact ⟨_, Host.effect?_bridgeDelete s.name⟩

section
variable (t : Topology) (ds : Diagnostics)

theorem builds_upPlan (h : State) (hds : ∀ d ∈ (t.wireLinks .keep).diagnostics, d ∈ ds.toList) :
    Builds (t.Granted ds) h (t.upPlan .keep).generated
      ∧ t.Prepared (h.walk (t.upPlan .keep).generated) := by
  have hprepared : t.Prepared (h.walk t.preparation) := t.prepared_walk h
  have hwire : Builds (t.Granted ds) (h.walk t.preparation) (t.wireLinks .keep).commands := by
    refine t.builds_wireSites ds _ hprepared {} ?_ t.sites (List.Subset.refl _) hds
    exact fun k hk => absurd hk List.not_mem_nil
  rw [generated_upPlan]
  refine ⟨(t.builds_preparation ds h).append_walk hwire, ?_⟩
  rw [State.walk_append]
  exact hprepared.mono hwire.subset

theorem runs_confPlan (h : State) (hds : ∀ d ∈ (t.wireLinks .keep).diagnostics, d ∈ ds.toList) :
    Runs (t.Granted ds) h (t.upPlan .keep ++ t.confPlan).generated := by
  obtain ⟨hup, hprepared⟩ := t.builds_upPlan ds h hds
  rw [Plan.generated_append, generated_confPlan, Host.runs_append]
  exact ⟨hup.runs, (t.builds_configure ds _ hprepared).runs⟩

/-- a removal in front changes nothing, as there is nothing to remove -/
theorem runs_after_delete (plan : Plan) (hplan : Runs (t.Granted ds) [] plan.generated) :
    Runs (t.Granted ds) [] (t.precmdPlan ++ t.downPlan ++ plan).generated := by
  rw [Plan.generated_append, Plan.generated_append, generated_precmdPlan, generated_downPlan,
    List.nil_append, Host.runs_append]
  refine ⟨Host.runs_of_sweeps [] _ t.sweeps_delete, ?_⟩
  rw [Host.walk_of_sweeps _ t.sweeps_delete]
  exact hplan

end

end Topology

/-- the requests whose scripts bring a topology up -/
def Request.raising : List Request := [.up, .reup, .reconf]

namespace Topology

/-- what the wiring reports is recorded by every plan that it is part of -/
theorem mem_diagnostics_wireLinks (t : Topology) (handles : HandlePolicy) (plan : Plan)
    (hsub : t.upPlan handles ⊆ plan) (d : Diagnostic) (hd : d ∈ (t.wireLinks handles).diagnostics) :
    d ∈ plan.skipped.diagnostics.toList := by
  have hmem : (.wireLinks, t.wireLinks handles) ∈ t.upPlan handles := by simp [upPlan]
  exact plan.mem_diagnostics .wireLinks _ (hsub hmem) d hd

/-- a script that brings the topology up is made from one plan under either policy, and its commands
run from the first to the last -/
theorem exists_running_plan (t : Topology) (r : Request) (hr : r ∈ Request.raising) :
    ∃ plan : Plan, (∀ policy, t.script ⟨policy, .keep⟩ r = plan.script policy)
      ∧ Runs (t.Granted plan.skipped.diagnostics) [] plan.generated := by
  simp only [Request.raising, List.mem_cons, List.not_mem_nil, or_false] at hr
  obtain rfl | rfl | rfl := hr
  · refine ⟨t.precmdPlan ++ t.upPlan .keep, fun _ => rfl, ?_⟩
    have hds := t.mem_diagnostics_wireLinks .keep (t.precmdPlan ++ t.upPlan .keep)
      fun _ hp => by simp [hp]
    rw [Plan.generated_append, generated_precmdPlan, List.nil_append]
    exact (t.builds_upPlan _ [] hds).1.runs
  · refine ⟨t.precmdPlan ++ t.downPlan ++ t.upPlan .keep, fun _ => rfl, ?_⟩
    have hds := t.mem_diagnostics_wireLinks .keep (t.precmdPlan ++ t.downPlan ++ t.upPlan .keep)
      fun _ hp => by simp [hp]
    exact t.runs_after_delete _ (t.upPlan .keep) (t.builds_upPlan _ [] hds).1.runs
  · refine ⟨t.precmdPlan ++ t.downPlan ++ t.upPlan .keep ++ t.confPlan, fun _ => rfl, ?_⟩
    have hds := t.mem_diagnostics_wireLinks .keep
      (t.precmdPlan ++ t.downPlan ++ t.upPlan .keep ++ t.confPlan) fun _ hp => by simp [hp]
    rw [List.append_assoc (t.precmdPlan ++ t.downPlan)] at hds ⊢
    exact t.runs_after_delete _ (t.upPlan .keep ++ t.confPlan) (t.runs_confPlan _ [] hds)

/-- **Commands come in an order that works.**  In every script that brings a topology up, whatever
the policy, each command that is generated finds what it needs among what the commands before it
made and did not remove, apart from what is granted. -/
theorem generated_served (t : Topology) (policy : UnitPolicy) (r : Request)
    (hr : r ∈ Request.raising) (s : Script) (hs : t.script ⟨policy, .keep⟩ r = .ok s)
    (before : List Command) (c : Command) (after : List Command)
    (hsplit : s.generated = before ++ c :: after) :
    Host.Serves (t.Granted s.diagnostics) (State.walk [] before) c := by
  obtain ⟨plan, hplan, hruns⟩ := t.exists_running_plan r hr
  rw [hplan] at hs
  obtain rfl := plan.eq_skipped_of_script_eq_ok policy s hs
  rw [Plan.generated_skipped] at hsplit
  exact (Host.runs_iff [] plan.generated).mp hruns before c after hsplit

/-- one namespace, linked to a bridge -/
def uplink : Topology where
  nodes :=
    [ { name := "C1", type := some "netns",
        interfaces := [{ name := "net0", type := "bridge", args := some "B0" }] } ]
  switches := [{ name := "B0" }]

theorem generated_served_uplink : Request.up ∈ Request.raising ∧
    ∃ s before after, uplink.script ⟨.abort, .keep⟩ .up = .ok s ∧
      s.generated = before ++ Bridge.attach "B0-C1" "B0" :: after ∧
      Host.Serves (uplink.Granted s.diagnostics) (State.walk [] before)
        (Bridge.attach "B0-C1" "B0") := by
  have hr : Request.up ∈ Request.raising := by decide
  exact ⟨hr, _, _, _, rfl, rfl, generated_served uplink .abort .up hr _ rfl
    (Bridge.create "B0" ++ [Netns.add "C1", Netns.linkUp "C1" "lo",
      .argv ["ip", "link", "add", "net0", "netns", "C1", "type", "veth", "peer", "name", "B0-C1"],
      Netns.linkUp "C1" "net0", Host.linkUp "B0-C1"]) _ [] rfl⟩

/-- one namespace, linked to a node that is not declared -/
def dangling : Topology where
  nodes :=
    [ { name := "N1", type := some "netns",
        interfaces := [{ name := "eth0", type := "direct", args := some "X#eth1" }] } ]

/-- What is not declared has to be granted: the pair that makes a link into it names a namespace
that is not there. -/
theorem dangling_not_served : dangling.validate = .ok () ∧
    ∃ s before c after, dangling.script ⟨.abort, .keep⟩ .up = .ok s ∧
      s.generated = before ++ c :: after ∧
      ¬ Host.Serves dangling.Given (State.walk [] before) c := by
  have hvalid : dangling.validate = .ok () := by decide +kernel
  refine ⟨hvalid, _, [Netns.add "N1", Netns.linkUp "N1" "lo"], .argv ["ip", "link", "add", "eth0",
    "netns", "N1", "type", "veth", "peer", "name", "eth1", "netns", "X"], _, rfl, rfl, ?_⟩
  rintro ⟨e, he, hneeds⟩
  rw [Host.effect?_pairBetween] at he
  obtain rfl := Option.some.inj he
  have hx : .netns "X" ∉ State.walk [] [Netns.add "N1", Netns.linkUp "N1" "lo"] := by decide
  exact (hneeds (.netns "X") (by simp)).elim hx id

end Topology

end Netlab
