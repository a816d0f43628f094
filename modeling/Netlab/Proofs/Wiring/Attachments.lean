import Netlab.Proofs.Topology.Reordered

/-!
# Which attachments are refused

An attachment to a switch is refused if the name of its host end is taken.  The name puts switch
and node together with a hyphen, and names may hold hyphens, so besides the second attachment of a
node to a switch there are twins: attachments of other nodes to other switches under the same name.

* `Link.hostEnd_eq_iff`              when two attachments share a name;
* `Topology.mem_hostEnds_wiredAfter` the names that are taken behind some sites;
* `Topology.attachment_refused_iff`  the property;
* `Topology.twin_attachment_refused` a node that attaches to a switch once and is refused.
-/

namespace Netlab

/-! ## names of host ends -/

namespace Link

/-- the second switch is called like the first with a part `x` more, and the first node like the
second with that part in front -/
def Twins (switch node switch' node' : String) : Prop :=
  ∃ x, switch' = switch ++ "-" ++ x ∧ node = x ++ "-" ++ node'

theorem hostEnd_of_twins {switch node switch' node' : String}
    (h : Twins switch node switch' node') :
    hostEnd switch node = hostEnd switch' node' := by
  obtain ⟨x, rfl, rfl⟩ := h
  simp only [hostEnd, String.append_assoc]

/-- where one switch is called like the start of the other, the rest is told by the nodes -/
theorem twins_of_append {switch node node' : String} {rest : List Char}
    (h : '-' :: node.toList = rest ++ '-' :: node'.toList) :
    rest = [] ∧ node = node' ∨ Twins switch node (switch ++ String.ofList rest) node' := by
  cases rest with
  | nil => exact Or.inl ⟨rfl, String.toList_inj.mp (List.cons.inj h).2⟩
  | cons c x =>
    obtain ⟨rfl, hnode⟩ := List.cons.inj h
    refine Or.inr ⟨String.ofList x, String.toList_inj.mp ?_, String.toList_inj.mp ?_⟩
    · simp
    · simp [hnode]

/-- two attachments share a name if they are of one node to one switch, or twins -/
theorem hostEnd_eq_iff (switch node switch' node' : String) :
    hostEnd switch node = hostEnd switch' node' ↔ switch = switch' ∧ node = node' ∨
      Twins switch node switch' node' ∨ Twins switch' node' switch node := by
  constructor
  · intro h
    have hchars : switch.toList ++ '-' :: node.toList = switch'.toList ++ '-' :: node'.toList := by
      simpa [hostEnd] using congrArg String.toList h
    obtain ⟨rest, hrest, hnodes⟩ | ⟨rest, hrest, hnodes⟩ := List.append_eq_append_iff.mp hchars
    · have hswitch : switch' = switch ++ String.ofList rest :=
        String.toList_inj.mp (by simp [hrest])
      obtain ⟨hnil, hnode⟩ | htwins := twins_of_append hnodes
      · exact Or.inl ⟨by simp [hswitch, hnil], hnode⟩
      · exact Or.inr (Or.inl (hswitch ▸ htwins))
    · have hswitch : switch = switch' ++ String.ofList rest :=
        String.toList_inj.mp (by simp [hrest])
      obtain ⟨hnil, hnode⟩ | htwins := twins_of_append hnodes
      · exact Or.inl ⟨by simp [hswitch, hnil], hnode.symm⟩
      · exact Or.inr (Or.inr (hswitch ▸ htwins))
  · rintro (⟨rfl, rfl⟩ | htwins | htwins)
    · rfl
    · exact hostEnd_of_twins htwins
    · exact (hostEnd_of_twins htwins).symm

/-- twins are of a node whose name holds a hyphen -/
theorem hyphen_of_twins {switch node switch' node' : String} (h : Twins switch node switch' node') :
    '-' ∈ node.toList := by
  obtain ⟨x, _, rfl⟩ := h
  simp

end Link

/-! ## names that are taken -/

/-- the site is that of an interface of a node to a switch -/
def Site.Attaches (node switch : String) : Site → Prop
  | .lost _ => False
  | .live n _ i => n.name = node ∧ Link.parse n.name i = .ok (.bridge switch)

namespace Topology

section
variable {t : Topology} {handles : HandlePolicy} {w w' : Wired} {s : Site} {trace : Trace}

/-- a name is taken behind a site if it was before, or if the site takes it -/
theorem Wires.mem_hostEnds (hstep : t.Wires handles w s trace w') (name : String) :
    name ∈ w'.hostEnds ↔ name ∈ w.hostEnds ∨
      ∃ node switch, s.Attaches node switch ∧ name = Link.hostEnd switch node := by
  have hnot : ∀ n kind i, (∀ switch, Link.parse n.name i ≠ .ok (.bridge switch)) →
      (name ∈ w.hostEnds ↔ name ∈ w.hostEnds ∨ ∃ node switch,
        (Site.live n kind i).Attaches node switch ∧ name = Link.hostEnd switch node) := by
    intro n kind i hall
    refine (or_iff_left ?_).symm
    rintro ⟨node, switch, ⟨_, hlink⟩, _⟩
    exact hall switch hlink
  cases hstep with
  | lost e => exact (or_iff_left fun ⟨_, _, h, _⟩ => h).symm
  | unreadable n kind i e he => exact hnot n kind i fun _ hl => by rw [he] at hl; cases hl
  | repeated n kind i peer j hlink _ =>
    exact hnot n kind i fun _ hl => by rw [hlink] at hl; cases hl
  | stranded n kind i peer j hlink _ _ =>
    exact hnot n kind i fun _ hl => by rw [hlink] at hl; cases hl
  | taken n kind i switch hlink hend =>
    refine ⟨Or.inl, fun h => h.elim id ?_⟩
    rintro ⟨_, switch', ⟨rfl, hl⟩, rfl⟩
    rw [hlink] at hl
    obtain rfl := Link.bridge.inj (Except.ok.inj hl)
    exact hend
  | made n kind i l hlink hfree =>
    cases l with
    | direct | veth | phys => exact hnot n kind i fun _ hl => by rw [hlink] at hl; cases hl
    | bridge switch =>
      rw [Wired.add, List.mem_cons, or_comm]
      refine or_congr_right ⟨fun h => ⟨n.name, switch, ⟨rfl, hlink⟩, h⟩, ?_⟩
      rintro ⟨_, switch', ⟨rfl, hl⟩, rfl⟩
      rw [hlink] at hl
      obtain rfl := Link.bridge.inj (Except.ok.inj hl)
      rfl

/-- an attachment is refused if its name is taken, and only then -/
theorem Wires.refused_iff {n : Node} {kind : NodeKind} {i : Interface}
    (hstep : t.Wires handles w (.live n kind i) trace w') (switch : String)
    (hlink : Link.parse n.name i = .ok (.bridge switch)) :
    trace = [.fail (.duplicateBridgePeer n.name switch)]
      ↔ Link.hostEnd switch n.name ∈ w.hostEnds := by
  cases hstep with
  | unreadable _ _ _ e he => rw [hlink] at he; cases he
  | repeated _ _ _ peer j hl _ => rw [hlink] at hl; cases hl
  | stranded _ _ _ peer j hl _ _ => rw [hlink] at hl; cases hl
  | taken _ _ _ switch' hl hend =>
    rw [hlink] at hl
    obtain rfl := Link.bridge.inj (Except.ok.inj hl)
    exact iff_of_true rfl hend
  | made _ _ _ l hl hfree =>
    rw [hlink] at hl
    obtain rfl := Except.ok.inj hl
    refine iff_of_false (fun h => ?_) hfree
    have herrors := Trace.errors_warned (t.linkWarnings handles ⟨n.name, i.name⟩ kind i.addr
      (.bridge switch)) ((Link.bridge switch).commands n.name kind i.name i.addr handles)
    rw [h] at herrors
    cases herrors

end

section
variable (t : Topology) (handles : HandlePolicy)

theorem mem_hostEnds_wiredAfter (w : Wired) (ss : List Site) (name : String) :
    name ∈ (t.wiredAfter handles w ss).hostEnds ↔ name ∈ w.hostEnds ∨
      ∃ s ∈ ss, ∃ node switch, s.Attaches node switch ∧ name = Link.hostEnd switch node := by
  induction ss generalizing w with
  | nil => simp [wiredAfter_nil]
  | cons s ss ih =>
    rw [wiredAfter_cons, ih, (t.wires_wireSite handles w s).mem_hostEnds, or_assoc,
      List.exists_mem_cons_iff]

theorem traces_append (w : Wired) (a b : List Site) :
    t.traces handles w (a ++ b)
      = t.traces handles w a ++ t.traces handles (t.wiredAfter handles w a) b := by
  induction a generalizing w with
  | nil => rfl
  | cons s a ih => rw [List.cons_append, traces, traces, wiredAfter_cons, ih, List.cons_append]

theorem length_traces (w : Wired) (ss : List Site) :
    (t.traces handles w ss).length = ss.length := by
  induction ss generalizing w with
  | nil => rfl
  | cons s ss ih => rw [traces, List.length_cons, ih, List.length_cons]

/-- the trace of one site among those of all -/
theorem traces_split (before : List Site) (s : Site) (after : List Site)
    (hsites : t.sites = before ++ s :: after) :
    ∃ front back, t.traces handles {} t.sites
        = front ++ (t.wireSite handles (t.wiredAfter handles {} before) s).1 :: back
      ∧ front.length = before.length := by
  refine ⟨t.traces handles {} before,
    t.traces handles (t.wiredAfter handles {} (before ++ [s])) after, ?_,
    t.length_traces handles {} before⟩
  rw [hsites, traces_append, traces, wiredAfter, wiredAfter, List.foldl_append]
  rfl

/-- in a well-formed topology the interfaces of one node name are those of one node -/
theorem eq_of_mem_sites (h : t.validate = .ok ()) {n m : Node} {kind kind' : NodeKind}
    {i j : Interface} (hn : .live n kind i ∈ t.sites) (hm : .live m kind' j ∈ t.sites)
    (hname : m.name = n.name) : m = n ∧ kind' = kind := by
  obtain ⟨hn, hk, _⟩ := (t.mem_sites_live n kind i).mp hn
  obtain ⟨hm, hk', _⟩ := (t.mem_sites_live m kind' j).mp hm
  have hfind := t.node?_of_mem h m hm
  rw [hname, t.node?_of_mem h n hn] at hfind
  obtain rfl := Option.some.inj hfind
  rw [hk] at hk'
  exact ⟨rfl, (Except.ok.inj hk').symm⟩

end

/-! ## refusals -/

/-- an interface of the node attaches to the switch -/
def Repeats (before : List Site) (n : Node) (kind : NodeKind) (switch : String) : Prop :=
  ∃ j, .live n kind j ∈ before ∧ Link.parse n.name j = .ok (.bridge switch)

/-- an interface of a node attaches to a switch under the name that the host end of `node` at
`switch` has -/
def MeetsTwin (before : List Site) (node switch : String) : Prop :=
  ∃ m kind j switch', .live m kind j ∈ before ∧ Link.parse m.name j = .ok (.bridge switch') ∧
    (Link.Twins switch' m.name switch node ∨ Link.Twins switch node switch' m.name)

theorem taken_iff (t : Topology) (h : t.validate = .ok ()) (before after : List Site) (n : Node)
    (kind : NodeKind) (i : Interface) (switch : String)
    (hsites : t.sites = before ++ .live n kind i :: after) :
    (∃ s ∈ before, ∃ node switch', s.Attaches node switch' ∧
        Link.hostEnd switch n.name = Link.hostEnd switch' node)
      ↔ Repeats before n kind switch ∨ MeetsTwin before n.name switch := by
  constructor
  · rintro ⟨s, hs, node, switch', hattaches, hname⟩
    cases s with
    | lost e => exact hattaches.elim
    | live m kind' j =>
      obtain ⟨rfl, hlink⟩ := hattaches
      obtain ⟨rfl, hnode⟩ | htwins := (Link.hostEnd_eq_iff ..).mp hname
      · have hhere : .live n kind i ∈ t.sites := by simp [hsites]
        have hthere : .live m kind' j ∈ t.sites := by simp [hsites, hs]
        obtain ⟨rfl, rfl⟩ := t.eq_of_mem_sites h hhere hthere hnode.symm
        exact Or.inl ⟨j, hs, hlink⟩
      · exact Or.inr ⟨m, kind', j, switch', hs, hlink, htwins.symm⟩
  · rintro (⟨j, hj, hlink⟩ | ⟨m, kind', j, switch', hj, hlink, htwins⟩)
    · exact ⟨_, hj, n.name, switch, ⟨rfl, hlink⟩, rfl⟩
    · exact ⟨_, hj, m.name, switch', ⟨rfl, hlink⟩,
        (Link.hostEnd_eq_iff ..).mpr (Or.inr htwins.symm)⟩

/-- **Which attachments are refused.**  Under `skip` an interface of a node to a switch is refused
if an earlier interface of that node attaches to that switch, or if an earlier interface of another
node attaches to another switch under the same name, and only then.  Where no node has a name with a
hyphen there is no such twin. -/
theorem attachment_refused_iff (t : Topology) (h : t.validate = .ok ()) (handles : HandlePolicy)
    (ds : Diagnostics) (before after : List Site) (n : Node) (kind : NodeKind) (i : Interface)
    (switch : String) (hsites : t.sites = before ++ .live n kind i :: after)
    (hlink : Link.parse n.name i = .ok (.bridge switch)) :
    ∃ front trace back, t.traces handles {} t.sites = front ++ trace :: back ∧
      front.length = before.length ∧
      (t.wireLinks handles).run .skip ds
        = (.ok (Trace.commands (front ++ trace :: back).flatten),
            ds.pushAll (Trace.diagnostics (front ++ trace :: back).flatten)) ∧
      (trace = [.fail (.duplicateBridgePeer n.name switch)]
        ↔ Repeats before n kind switch ∨ MeetsTwin before n.name switch) ∧
      ((∀ m ∈ t.nodes, '-' ∉ m.name.toList) →
        (trace = [.fail (.duplicateBridgePeer n.name switch)] ↔ Repeats before n kind switch)) := by
  obtain ⟨front, back, htraces, hlength⟩ := t.traces_split handles before _ after hsites
  have hstep := t.wires_wireSite handles (t.wiredAfter handles {} before) (.live n kind i)
  have hrefused := hstep.refused_iff switch hlink
  rw [mem_hostEnds_wiredAfter, or_iff_right List.not_mem_nil,
    t.taken_iff h before after n kind i switch hsites] at hrefused
  refine ⟨front, _, back, htraces, hlength, ?_, hrefused, fun hplain => ?_⟩
  · rw [← htraces, flatten_traces]
    exact Trace.run_skip (t.wireLinks handles) ds
  · -- a twin would be of a node whose name holds a hyphen
    refine hrefused.trans (or_iff_left ?_)
    rintro ⟨m, kind', j, switch', hj, _, htwins⟩
    have hm := ((t.mem_sites_live m kind' j).mp (by simp [hsites, hj])).1
    have hn := ((t.mem_sites_live n kind i).mp (by simp [hsites])).1
    obtain htwins | htwins := htwins
    · exact hplain m hm (Link.hyphen_of_twins htwins)
    · exact hplain n hn (Link.hyphen_of_twins htwins)

/-- the second interface of the router to the switch -/
theorem attachment_refused_halfBuilt :
    HalfBuilt.topology.validate = .ok () ∧
      ∃ before i after, HalfBuilt.topology.sites
          = before ++ .live HalfBuilt.router .container i :: after ∧
        Link.parse "R1" i = .ok (.bridge "B0") ∧
        ∃ front back, HalfBuilt.topology.traces .keep {} HalfBuilt.topology.sites
            = front ++ [.fail (.duplicateBridgePeer "R1" "B0")] :: back
          ∧ front.length = before.length := by
  have hvalid : HalfBuilt.topology.validate = .ok () := by decide +kernel
  have hsites : HalfBuilt.topology.sites
      = HalfBuilt.topology.sites.take 3
        ++ .live HalfBuilt.router .container { name := "net2", type := "bridge", args := some "B0" }
          :: HalfBuilt.topology.sites.drop 4 := by rfl
  have hlink : Link.parse HalfBuilt.router.name
      { name := "net2", type := "bridge", args := some "B0" } = .ok (.bridge "B0") := by
    decide +kernel
  obtain ⟨front, trace, back, htraces, hlength, _, hrefused, _⟩ :=
    attachment_refused_iff HalfBuilt.topology hvalid .keep {} _ _ _ _ _ _ hsites hlink
  have hrepeats : Repeats (HalfBuilt.topology.sites.take 3) HalfBuilt.router .container "B0" :=
    ⟨{ name := "net1", type := "bridge", args := some "B0" },
      List.mem_of_getElem? (show _[2]? = some _ from rfl), by decide +kernel⟩
  obtain rfl := hrefused.mpr (Or.inl hrepeats)
  exact ⟨hvalid, _, _, _, hsites, hlink, front, back, htraces, hlength⟩

namespace Twin

/-- the host end of this node is `a-b-c` -/
def left : Node where
  name := "c"
  type := some "netns"
  interfaces := [{ name := "net0", type := "bridge", args := some "a-b" }]

/-- and that of this one too -/
def right : Node where
  name := "b-c"
  type := some "netns"
  interfaces := [{ name := "net0", type := "bridge", args := some "a" }]

def topology : Topology where
  nodes := [left, right]
  switches := [{ name := "a-b" }, { name := "a" }]

end Twin

/-- A node that attaches to a switch once is refused for attaching to it more than once. -/
theorem twin_attachment_refused : Twin.topology.validate = .ok () ∧
    Twin.right.interfaces.length = 1 ∧
    (Twin.topology.wireLinks .keep).run .skip {}
      = (.ok ((Link.bridge "a-b").commands "c" .netns "net0" none .keep),
          ⟨[⟨.skipped, "Node 'b-c' attaches to switch 'a' more than once"⟩]⟩) := by
  decide +kernel

end Topology

end Netlab
