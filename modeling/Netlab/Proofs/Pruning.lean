import Netlab.Proofs.Phases

/-!
# A unit left out is as good as not declared

From a topology everything that fails is taken away: the nodes that cannot be created with their
configs, and the interfaces whose wiring fails.  What is left is compiled without a failure, to the
same commands and with the same warnings as the whole under `skip`.

* `Topology.pruned`               what is left;
* `Topology.Wires.failed`         a site that fails leaves nothing behind in what is wired;
* `Topology.wireSites_keptNodes`  so the wiring of what is left is the wiring of the whole, without
                                  the failures;
* `Topology.pruned_agrees`        the property, of whole scripts.
-/

namespace Netlab

open Shell (Command)

/-! ## traces without their failures -/

namespace Report

def passes : Report → Bool
  | .fail _ => false
  | _ => true

end Report

namespace Trace

/-- a trace without its failures -/
def passed (t : Trace) : Trace := t.filter Report.passes

theorem passed_append (a b : Trace) : passed (a ++ b) = passed a ++ passed b :=
  List.filter_append ..

theorem passed_cons_of_pos (r : Report) (t : Trace) (h : r.passes = true) :
    passed (r :: t) = r :: passed t := List.filter_cons_of_pos h

theorem passed_cons_of_neg (r : Report) (t : Trace) (h : r.passes = false) :
    passed (r :: t) = passed t :=
  List.filter_cons_of_neg (by rw [h]; exact Bool.false_ne_true)

theorem commands_passed (t : Trace) : t.passed.commands = t.commands := by
  induction t with
  | nil => rfl
  | cons r t ih =>
    rw [commands_cons r t, ← ih]
    cases r with
    | emit cmds => exact commands_cons (.emit cmds) (passed t)
    | warn | fail => rfl

theorem errors_passed (t : Trace) : t.passed.errors = [] := by
  induction t with
  | nil => rfl
  | cons r t ih => cases r <;> exact ih

theorem diagnostics_passed (t : Trace) :
    t.passed.diagnostics = t.diagnostics.filter (·.severity = .warning) := by
  induction t with
  | nil => rfl
  | cons r t ih =>
    rw [diagnostics_cons r t, List.filter_append, ← ih]
    cases r <;> rfl

theorem passed_of_errors_nil (t : Trace) (h : t.errors = []) : t.passed = t := by
  induction t with
  | nil => rfl
  | cons r t ih =>
    rw [errors_cons, List.append_eq_nil_iff] at h
    cases r with
    | emit cmds => exact congrArg (.emit cmds :: ·) (ih h.2)
    | warn message => exact congrArg (.warn message :: ·) (ih h.2)
    | fail e => exact absurd h.1 (List.cons_ne_nil e [])

end Trace

namespace Plan

def passed (plan : Plan) : Plan := plan.map fun (phase, trace) => (phase, trace.passed)

theorem passed_append (a b : Plan) : passed (a ++ b) = passed a ++ passed b := List.map_append

theorem sections_passed (plan : Plan) : plan.passed.sections = plan.sections := by
  induction plan with
  | nil => rfl
  | cons p plan ih =>
    obtain ⟨phase, trace⟩ := p
    rw [sections_cons, ← ih, ← Trace.commands_passed]
    rfl

theorem errors_passed (plan : Plan) : plan.passed.errors = [] := by
  induction plan with
  | nil => rfl
  | cons p plan ih =>
    obtain ⟨phase, trace⟩ := p
    show trace.passed.errors ++ (passed plan).errors = []
    rw [ih, Trace.errors_passed]
    rfl

theorem diagnostics_passed (plan : Plan) :
    plan.passed.diagnostics = plan.diagnostics.filter (·.severity = .warning) := by
  induction plan with
  | nil => rfl
  | cons p plan ih =>
    obtain ⟨phase, trace⟩ := p
    rw [diagnostics_cons, List.filter_append, ← ih, ← Trace.diagnostics_passed]
    rfl

/-- a plan without its failures gives the script that leaves them out, even under `abort` -/
theorem script_passed (plan : Plan) : ∃ s, plan.passed.script .abort = .ok s ∧
    s.sections = plan.skipped.sections ∧
    s.diagnostics.toList = plan.skipped.diagnostics.warnings := by
  refine ⟨plan.passed.skipped, ?_, plan.sections_passed, ?_⟩
  · rw [script_abort, errors_passed]
  · show (({} : Diagnostics).pushAll plan.passed.diagnostics).toList
      = (({} : Diagnostics).pushAll plan.diagnostics).warnings
    rw [diagnostics_passed, Diagnostics.warnings_pushAll]

end Plan

/-! ## what is left of a topology -/

namespace Node

def withInterfaces (n : Node) (is : List Interface) : Node := { n with interfaces := is }

theorem kind_withInterfaces (n : Node) (is : List Interface) :
    (n.withInterfaces is).kind = n.kind := by
  simp only [kind, withInterfaces]

theorem create_withInterfaces (n : Node) (is : List Interface) (kind : NodeKind) :
    (n.withInterfaces is).create kind = n.create kind := by
  cases kind with
  | container => simp only [create, image?, runWords, network, withInterfaces]
  | netns => rfl

theorem creatable_withInterfaces (n : Node) (is : List Interface) :
    (n.withInterfaces is).creatable = n.creatable := by
  simp only [creatable, kind_withInterfaces, create_withInterfaces]

theorem sites_withInterfaces (n : Node) (is : List Interface) (kind : NodeKind)
    (hk : n.creatable = .ok kind) :
    (n.withInterfaces is).sites = is.map (.live (n.withInterfaces is) kind) :=
  sites_of_ok _ kind (by rw [creatable_withInterfaces, hk])

end Node

namespace Topology

section
variable (t : Topology) (handles : HandlePolicy)

/-- The interfaces of a node whose wiring does not fail.  They are wired one behind the other, since
what is wired before decides whether the next one fails. -/
def keptInterfaces (n : Node) (kind : NodeKind) : Wired → List Interface → List Interface
  | _, [] => []
  | w, i :: is =>
    let step := t.wireSite handles w (.live n kind i)
    let rest := keptInterfaces n kind step.2 is
    if Trace.errors step.1 = [] then i :: rest else rest

/-- the nodes that can be created, each with the interfaces whose wiring does not fail -/
def keptNodes : Wired → List Node → List Node
  | _, [] => []
  | w, n :: ns =>
    let rest := keptNodes (t.wiredAfter handles w n.sites) ns
    match n.creatable with
    | .error _ => rest
    | .ok kind => n.withInterfaces (t.keptInterfaces handles n kind w n.interfaces) :: rest

theorem keptNodes_of_error (w : Wired) (n : Node) (ns : List Node) (e : CompileError)
    (hk : n.creatable = .error e) :
    t.keptNodes handles w (n :: ns) = t.keptNodes handles (t.wiredAfter handles w n.sites) ns := by
  rw [keptNodes, hk]

theorem keptNodes_of_ok (w : Wired) (n : Node) (ns : List Node) (kind : NodeKind)
    (hk : n.creatable = .ok kind) :
    t.keptNodes handles w (n :: ns)
      = n.withInterfaces (t.keptInterfaces handles n kind w n.interfaces)
          :: t.keptNodes handles (t.wiredAfter handles w n.sites) ns := by
  rw [keptNodes, hk]

/-- the names of the nodes that cannot be created -/
def lostNames : List String := (t.nodes.filter (!·.creatable.isOk)).map (·.name)

/-- the topology without the nodes that cannot be created, the interfaces whose wiring fails, and
the configs of those nodes -/
def pruned : Topology :=
  { t with
    nodes := t.keptNodes handles {} t.nodes
    nodeConfigs := t.nodeConfigs.filter (·.name ∉ t.lostNames) }

end

/-! ## one site -/

theorem Wires.failed {t : Topology} {handles : HandlePolicy} {w w' : Wired} {s : Site}
    {trace : Trace} (hstep : t.Wires handles w s trace w') (h : trace.errors ≠ []) :
    trace.passed = [] ∧ w' = w := by
  cases hstep with
  | lost | unreadable | stranded | taken => exact ⟨rfl, rfl⟩
  | repeated => exact absurd rfl h
  | made => exact absurd (Trace.errors_warned _ _) h

/-- names mean the same in both topologies, except those of nodes that cannot be created -/
structure Agrees (t t' : Topology) : Prop where
  switch (name : String) : t'.switch? name = t.switch? name
  absent (name : String) (h : t.node? name = none) : t'.node? name = none
  present (name : String) (n : Node) (kind : NodeKind) (h : t.node? name = some n)
    (hk : n.creatable = .ok kind) :
    ∃ n', t'.node? name = some n' ∧ n'.name = n.name ∧ n'.creatable = .ok kind

section
variable {t t' : Topology} (ha : t.Agrees t') (handles : HandlePolicy)
include ha

theorem wireDirect_agrees (a b : Endpoint) (block : List Command) (addr : Option String)
    (w : Wired) (h : Trace.errors (t.wireDirect a b block addr w).1 = []) :
    t'.wireDirect a b block addr w = t.wireDirect a b block addr w := by
  by_cases hkey : a.pair b ∈ w.links
  · simp only [wireDirect, if_pos hkey]
  · simp only [wireDirect, if_neg hkey] at h ⊢
    cases hfind : t.node? b.node with
    | none => rw [ha.absent b.node hfind]
    | some n =>
      cases hk : n.creatable with
      | error e =>
        rw [hfind] at h
        simp only [hk] at h
        exact absurd h (List.cons_ne_nil _ _)
      | ok kind =>
        obtain ⟨n', hfind', _, hk'⟩ := ha.present b.node n kind hfind hk
        rw [hfind']
        simp only [hk, hk']

/-- a site that does not fail goes the same way in both -/
theorem wireSite_agrees (w : Wired) (s : Site) (h : Trace.errors (t.wireSite handles w s).1 = []) :
    t'.wireSite handles w s = t.wireSite handles w s := by
  cases s with
  | lost e => rfl
  | live n kind i =>
    cases hlink : Link.parse n.name i with
    | error e => simp only [wireSite, hlink]
    | ok l =>
      simp only [wireSite, hlink] at h ⊢
      cases l with
      | direct peer peerInterface => exact wireDirect_agrees ha _ _ _ _ w h
      | bridge switch => simp only [wireLink, wireBridge, ha.switch]
      | veth | phys => rfl

/-- the wiring of the interfaces that are kept is the wiring of all, without the failures -/
theorem wireSites_keptInterfaces (n n' : Node) (hname : n'.name = n.name) (kind : NodeKind)
    (w : Wired) (is : List Interface) :
    t'.wireSites handles w ((t.keptInterfaces handles n kind w is).map (.live n' kind))
        = Trace.passed (t.wireSites handles w (is.map (.live n kind)))
      ∧ t'.wiredAfter handles w ((t.keptInterfaces handles n kind w is).map (.live n' kind))
        = t.wiredAfter handles w (is.map (.live n kind)) := by
  induction is generalizing w with
  | nil =>
    rw [keptInterfaces, List.map_nil, List.map_nil, wiredAfter_nil, wiredAfter_nil]
    exact ⟨rfl, rfl⟩
  | cons i is ih =>
    have hsame : t'.wireSite handles w (.live n' kind i)
        = t'.wireSite handles w (.live n kind i) := by
      simp only [wireSite, wireLink, hname]
    rw [List.map_cons, wireSites_cons, wiredAfter_cons, Trace.passed_append]
    by_cases h : Trace.errors (t.wireSite handles w (.live n kind i)).1 = []
    · have hkept : t.keptInterfaces handles n kind w (i :: is)
          = i :: t.keptInterfaces handles n kind (t.wireSite handles w (.live n kind i)).2 is := by
        simp only [keptInterfaces, if_pos h]
      have hstep := wireSite_agrees ha handles w (.live n kind i) h
      rw [hkept, List.map_cons, wireSites_cons, wiredAfter_cons, hsame, hstep, (ih _).1, (ih _).2,
        Trace.passed_of_errors_nil _ h]
      exact ⟨rfl, rfl⟩
    · have hkept : t.keptInterfaces handles n kind w (i :: is)
          = t.keptInterfaces handles n kind (t.wireSite handles w (.live n kind i)).2 is := by
        simp only [keptInterfaces, if_neg h]
      obtain ⟨hpassed, hw⟩ := (t.wires_wireSite handles w (.live n kind i)).failed h
      rw [hkept, hpassed, hw, (ih w).1, (ih w).2, List.nil_append]
      exact ⟨rfl, rfl⟩

theorem wireSites_keptNodes (w : Wired) (ns : List Node) :
    t'.wireSites handles w ((t.keptNodes handles w ns).flatMap Node.sites)
      = Trace.passed (t.wireSites handles w (ns.flatMap Node.sites)) := by
  induction ns generalizing w with
  | nil => rfl
  | cons n ns ih =>
    rw [List.flatMap_cons, wireSites_append, Trace.passed_append, ← ih]
    cases hk : n.creatable with
    | error e =>
      rw [t.keptNodes_of_error handles w n ns e hk, n.sites_of_error e hk, wiredAfter_cons,
        wiredAfter_nil]
      exact (List.nil_append _).symm
    | ok kind =>
      have hname : ∀ is, (n.withInterfaces is).name = n.name := fun _ => rfl
      obtain ⟨htrace, hw⟩ := wireSites_keptInterfaces ha handles n _
        (hname (t.keptInterfaces handles n kind w n.interfaces)) kind w n.interfaces
      rw [t.keptNodes_of_ok handles w n ns kind hk, List.flatMap_cons, wireSites_append,
        n.sites_withInterfaces _ kind hk, htrace, hw, n.sites_of_ok kind hk]

end

section
variable (t : Topology) (handles : HandlePolicy)

/-! ## names -/

theorem find?_name_cons (name : String) (n : Node) (ns : List Node) :
    (n :: ns).find? (·.name == name)
      = if n.name = name then some n else ns.find? (·.name == name) := by
  by_cases h : n.name = name <;> simp [h]

theorem find?_keptNodes (name : String) (w : Wired) (ns : List Node) :
    (ns.find? (·.name == name) = none → (t.keptNodes handles w ns).find? (·.name == name) = none)
      ∧ ∀ n kind, ns.find? (·.name == name) = some n → n.creatable = .ok kind →
        ∃ is, (t.keptNodes handles w ns).find? (·.name == name) = some (n.withInterfaces is) := by
  induction ns generalizing w with
  | nil => exact ⟨fun _ => rfl, fun _ _ h => (nomatch h)⟩
  | cons m ns ih =>
    rw [find?_name_cons]
    by_cases hname : m.name = name
    · -- the first node of that name is found, or it cannot be created
      rw [if_pos hname]
      refine ⟨fun h => (nomatch h), fun n kind h hk => ?_⟩
      obtain rfl := Option.some.inj h
      rw [t.keptNodes_of_ok handles w m ns kind hk, find?_name_cons]
      exact ⟨_, if_pos hname⟩
    · rw [if_neg hname]
      cases hk : m.creatable with
      | error e =>
        rw [t.keptNodes_of_error handles w m ns e hk]
        exact ih _
      | ok kind =>
        have hskip : ∀ is, (m.withInterfaces is).name ≠ name := fun _ => hname
        rw [t.keptNodes_of_ok handles w m ns kind hk, find?_name_cons, if_neg (hskip _)]
        exact ih _

theorem agrees_pruned : t.Agrees (t.pruned handles) where
  switch _ := rfl
  absent name h := (t.find?_keptNodes handles name {} t.nodes).1 h
  present name n kind h hk := by
    obtain ⟨is, hfind⟩ := (t.find?_keptNodes handles name {} t.nodes).2 n kind h hk
    exact ⟨n.withInterfaces is, hfind, rfl, by rw [n.creatable_withInterfaces, hk]⟩

theorem mem_lostNames (name : String) :
    name ∈ t.lostNames ↔ ∃ n ∈ t.nodes, n.name = name ∧ ∃ e, n.creatable = .error e := by
  rw [lostNames, List.mem_map]
  constructor
  · rintro ⟨n, hn, rfl⟩
    obtain ⟨hn, hk⟩ := List.mem_filter.mp hn
    cases h : n.creatable with
    | error e => exact ⟨n, hn, rfl, e, h⟩
    | ok kind => rw [h] at hk; cases hk
  · rintro ⟨n, hn, rfl, e, h⟩
    exact ⟨n, List.mem_filter.mpr ⟨hn, by rw [h]; rfl⟩, rfl⟩

/-! ## phases -/

/-- a phase that goes node by node, without regard to interfaces -/
theorem map_keptNodes (f : Node → Except CompileError (List Command))
    (hsame : ∀ n is, f (n.withInterfaces is) = f n)
    (herror : ∀ n e, n.creatable = .error e → ∃ e', f n = .error e')
    (hok : ∀ n kind, n.creatable = .ok kind → ∃ cmds, f n = .ok cmds) (w : Wired) (ns : List Node) :
    (t.keptNodes handles w ns).map (fun n => Report.ofUnit (f n))
      = Trace.passed (ns.map fun n => .ofUnit (f n)) := by
  induction ns generalizing w with
  | nil => rfl
  | cons n ns ih =>
    cases hk : n.creatable with
    | error e =>
      obtain ⟨e', he⟩ := herror n e hk
      rw [t.keptNodes_of_error handles w n ns e hk, ih, List.map_cons, he]
      rfl
    | ok kind =>
      obtain ⟨cmds, hcmds⟩ := hok n kind hk
      rw [t.keptNodes_of_ok handles w n ns kind hk, List.map_cons, List.map_cons, ih, hsame, hcmds]
      rfl

theorem createNodes_pruned : (t.pruned handles).createNodes = t.createNodes.passed := by
  refine t.map_keptNodes handles (fun n => do n.create (← n.kind)) ?_ ?_ ?_ {} t.nodes
  · intro n is
    simp only [n.kind_withInterfaces, n.create_withInterfaces]
  · exact fun n e hk => ⟨e, (n.creation_eq_error e).mpr hk⟩
  · intro n kind hk
    obtain ⟨_, cmds, hcreate⟩ := (n.creatable_eq_ok kind).mp hk
    exact ⟨cmds, (n.creation_eq_ok cmds).mpr ⟨kind, hk, hcreate⟩⟩

theorem mountNetns_pruned : (t.pruned handles).mountNetns = t.mountNetns.passed := by
  refine t.map_keptNodes handles (fun n => do return (← n.creatable).mount n.name) ?_ ?_ ?_ {}
    t.nodes
  · intro n is
    simp only [n.creatable_withInterfaces]
    rfl
  · exact fun n e hk => ⟨e, by rw [hk]; rfl⟩
  · exact fun n kind hk => ⟨kind.mount n.name, by rw [hk]; rfl⟩

theorem wireLinks_pruned : (t.pruned handles).wireLinks handles = (t.wireLinks handles).passed :=
  wireSites_keptNodes (t.agrees_pruned handles) handles {} t.nodes

/-- what is reported of one node config -/
def configReport (config : NodeConfig) : Report :=
  match t.node? config.name with
  | none => .warn s!"Node config '{config.name}' matches no node"
  | some n => .ofUnit do
    let kind ← n.creatable
    return config.cmds.map (kind.exec n.name)

theorem configure_eq : t.configure = t.nodeConfigs.map t.configReport := rfl

theorem configReport_lost (h : t.validate = .ok ()) (config : NodeConfig)
    (hc : config.name ∈ t.lostNames) : (t.configReport config).passes = false := by
  obtain ⟨n, hn, hname, e, hk⟩ := (t.mem_lostNames config.name).mp hc
  rw [configReport, ← hname, t.node?_of_mem h n hn]
  simp only [hk]
  rfl

theorem configReport_kept (config : NodeConfig) (hc : config.name ∉ t.lostNames) :
    (t.configReport config).passes = true
      ∧ (t.pruned handles).configReport config = t.configReport config := by
  have ha : t.Agrees (t.pruned handles) := t.agrees_pruned handles
  rw [configReport, configReport]
  cases hfind : t.node? config.name with
  | none =>
    rw [ha.absent config.name hfind]
    exact ⟨rfl, rfl⟩
  | some n =>
    cases hk : n.creatable with
    | error e =>
      have hn : n ∈ t.nodes := t.node?_mem config.name n hfind
      have hname : n.name = config.name := t.node?_name config.name n hfind
      exact absurd ((t.mem_lostNames config.name).mpr ⟨n, hn, hname, e, hk⟩) hc
    | ok kind =>
      obtain ⟨n', hfind', hname, hk'⟩ := ha.present config.name n kind hfind hk
      rw [hfind']
      simp only [hk, hk', hname]
      exact ⟨rfl, trivial⟩

theorem configure_pruned (h : t.validate = .ok ()) :
    (t.pruned handles).configure = t.configure.passed := by
  rw [configure_eq, configure_eq]
  show (t.nodeConfigs.filter (·.name ∉ t.lostNames)).map _ = _
  induction t.nodeConfigs with
  | nil => rfl
  | cons config configs ih =>
    by_cases hc : config.name ∈ t.lostNames
    · have hfail := t.configReport_lost h config hc
      rw [List.filter_cons_of_neg (by simpa using hc), ih, List.map_cons,
        Trace.passed_cons_of_neg _ _ hfail]
    · obtain ⟨hpass, hsame⟩ := t.configReport_kept handles config hc
      rw [List.filter_cons_of_pos (by simpa using hc), List.map_cons, ih, hsame, List.map_cons,
        Trace.passed_cons_of_pos _ _ hpass]

/-! ## scripts -/

theorem upPlan_pruned : (t.pruned handles).upPlan handles = Plan.passed (t.upPlan handles) := by
  simp only [upPlan, createNodes_pruned, mountNetns_pruned, wireLinks_pruned]
  rfl

theorem confPlan_pruned (h : t.validate = .ok ()) :
    (t.pruned handles).confPlan = Plan.passed t.confPlan := by
  simp only [confPlan, t.configure_pruned handles h]
  rfl

end

/-- **A unit left out is as good as not declared.**  What is left of a topology without the units
that fail is compiled under `abort` to the script that the whole has under `skip`, command for
command, and only the warnings are recorded. -/
theorem pruned_agrees (t : Topology) (h : t.validate = .ok ()) (handles : HandlePolicy)
    (r : Request) (hr : r ∈ [Request.up, .conf]) :
    ∃ s s', t.script ⟨.skip, handles⟩ r = .ok s
      ∧ (t.pruned handles).script ⟨.abort, handles⟩ r = .ok s'
      ∧ s'.sections = s.sections ∧ s'.diagnostics.toList = s.diagnostics.warnings := by
  simp only [List.mem_cons, List.not_mem_nil, or_false] at hr
  obtain rfl | rfl := hr
  · have hskip := Plan.script_skip (t.precmdPlan ++ t.upPlan handles)
    obtain ⟨s', hs', hsame⟩ := Plan.script_passed (t.precmdPlan ++ t.upPlan handles)
    rw [Plan.passed_append, ← upPlan_pruned] at hs'
    exact ⟨_, s', hskip, hs', hsame⟩
  · have hskip := Plan.script_skip (t.precmdPlan ++ t.confPlan)
    obtain ⟨s', hs', hsame⟩ := Plan.script_passed (t.precmdPlan ++ t.confPlan)
    rw [Plan.passed_append, ← t.confPlan_pruned handles h] at hs'
    exact ⟨_, s', hskip, hs', hsame⟩

theorem pruned_agrees_halfBuilt : HalfBuilt.topology.validate = .ok () ∧
    (HalfBuilt.topology.pruned .keep).nodes.map (fun n => (n.name, n.interfaces.map (·.name)))
      = [("R1", ["net1", "net3"]), ("C1", ["net0"])] ∧
    ∃ s s', HalfBuilt.topology.script ⟨.skip, .keep⟩ .up = .ok s
      ∧ (HalfBuilt.topology.pruned .keep).script ⟨.abort, .keep⟩ .up = .ok s'
      ∧ s'.sections = s.sections ∧ s'.diagnostics.toList = s.diagnostics.warnings := by
  have hvalid : HalfBuilt.topology.validate = .ok () := by decide +kernel
  refine ⟨hvalid, by decide +kernel, ?_⟩
  exact pruned_agrees HalfBuilt.topology hvalid .keep .up (by decide)

end Topology

end Netlab
