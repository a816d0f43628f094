import Netlab.Proofs.Reading
import Netlab.Proofs.Topology.Records
import Netlab.Topology.Encode

/-!
# A topology and its presentations

A topology is written as a record in one way, and read from many: fields may stand in any order and
among others that nobody knows, a default may be written or left out, and a kernel parameter may
stand under its former name.  A record that lacks a line, or has a field twice, is refused.

* `Record.Alike`                      two presentations of one record;
* `Record.Alike.read`                 they are read as the same, or both refused;
* `Record.Faulty.read`                what is refused, wherever it stands;
* `Record.readAll_of_holdAll`         fields written one behind the other are read back;
* `Topology.ofValue_presented`        the property, of whole topologies.
-/

namespace Netlab

namespace Record

/-! ## other presentations -/

/-- two values that present the same record -/
inductive Alike : Record → Value → Value → Prop
  | refl (r : Record) (v : Value) : Alike r v v
  | symm {r : Record} {v v' : Value} (h : Alike r v v') : Alike r v' v
  | trans {r : Record} {v v' v'' : Value} (h : Alike r v v') (h' : Alike r v' v'') : Alike r v v''
  /-- the fields in another order -/
  | reordered (r : Record) (fs fs' : List (String × Value)) (h : fs.Perm fs') :
    Alike r (.record fs) (.record fs')
  /-- one more field, of a name that is not known -/
  | unknown (r : Record) (name : String) (v : Value) (fs : List (String × Value))
    (h : name ∉ r.names) : Alike r (.record fs) (.record ((name, v) :: fs))
  /-- a default written out -/
  | default (r : Record) (e : Entry) (he : e ∈ r.entries) (name : String) (hname : name ∈ e.names)
    (d : Value) (hd : e.default? = some d) (fs : List (String × Value))
    (habsent : ∀ f ∈ fs, f.1 ∉ e.names) : Alike r (.record fs) (.record ((name, d) :: fs))
  /-- a field under another of its names -/
  | renamed (r : Record) (e : Entry) (he : e ∈ r.entries) (name name' : String)
    (hname : name ∈ e.names) (hname' : name' ∈ e.names) (v : Value) (fs : List (String × Value)) :
    Alike r (.record ((name, v) :: fs)) (.record ((name', v) :: fs))
  /-- one record of a list presented in another way -/
  | nested (r : Record) (name : String) (r' : Record) (he : .records name r' ∈ r.entries)
    (a b : List Value) (v v' : Value) (h : Alike r' v v') (fs : List (String × Value)) :
    Alike r (.record ((name, .list (a ++ v :: b)) :: fs))
      (.record ((name, .list (a ++ v' :: b)) :: fs))

/-- a change to the first field of a record that changes neither whose field it is nor what it is
taken for -/
theorem read_head (r : Record) (e : Entry) (he : e ∈ r.entries) (name name' : String)
    (hname : name ∈ e.names) (hname' : name' ∈ e.names) (v v' : Value)
    (htake : (e.take (some v)).toOption = (e.take (some v')).toOption)
    (fs : List (String × Value)) :
    (r.read (.record ((name, v) :: fs))).toOption
      = (r.read (.record ((name', v') :: fs))).toOption := by
  refine r.read_congr _ _ fun e' he' => ?_
  by_cases heq : e' = e
  · subst heq
    exact e'.read_cons_congr name name' v v' fs hname hname' htake
  · have hother : name ∉ e'.names := fun hin => heq (r.entry_unique e' he' e he name hin hname)
    have hother' : name' ∉ e'.names := fun hin => heq (r.entry_unique e' he' e he name' hin hname')
    rw [e'.read_cons_of_not_mem name v fs hother, e'.read_cons_of_not_mem name' v' fs hother']

theorem Alike.read {r : Record} {v v' : Value} (h : Alike r v v') :
    (r.read v).toOption = (r.read v').toOption := by
  induction h with
  | refl r v => rfl
  | symm _ ih => exact ih.symm
  | trans _ _ ih ih' => exact ih.trans ih'
  | reordered r fs fs' hperm => exact r.read_congr fs fs' fun e _ => e.read_perm fs fs' hperm
  | unknown r name v fs hname =>
    refine r.read_congr _ _ fun e he => (e.read_cons_of_not_mem name v fs fun hin => hname ?_).symm
    exact List.mem_flatMap.mpr ⟨e, he, hin⟩
  | default r e he name hname d hd fs habsent =>
    refine r.read_congr _ _ fun e' he' => ?_
    by_cases heq : e' = e
    · subst heq
      rw [e'.read_of_absent fs habsent, e'.read_cons_of_absent name d fs hname habsent,
        e'.take_default d hd]
    · have hother : name ∉ e'.names := fun hin => heq (r.entry_unique e' he' e he name hin hname)
      rw [e'.read_cons_of_not_mem name d fs hother]
  | renamed r e he name name' hname hname' v fs =>
    exact r.read_head e he name name' hname hname' v v rfl fs
  | nested r name r' he a b v v' _ fs ih =>
    have hname : name ∈ (Entry.records name r').names := List.mem_singleton_self name
    refine r.read_head _ he name name hname hname _ _ ?_ fs
    rw [Entry.take_records, Entry.take_records, List.mapM_append, List.mapM_append, List.mapM_cons,
      List.mapM_cons, ih]

/-! ## records that are refused -/

/-- a record that lacks a field which has no default, or has one twice, or holds such a record -/
inductive Faulty : Record → Value → Prop
  | missing (r : Record) (e : Entry) (he : e ∈ r.entries) (hd : e.default? = none)
    (fs : List (String × Value)) (habsent : ∀ f ∈ fs, f.1 ∉ e.names) : Faulty r (.record fs)
  | repeated (r : Record) (e : Entry) (he : e ∈ r.entries) (fs : List (String × Value))
    (h : 2 ≤ (fieldsUnder e.names fs).length) : Faulty r (.record fs)
  | nested (r : Record) (name : String) (r' : Record) (he : .records name r' ∈ r.entries)
    (fs : List (String × Value)) (vs : List Value) (hvs : (name, .list vs) ∈ fs) (v : Value)
    (hv : v ∈ vs) (h : Faulty r' v) : Faulty r (.record fs)

theorem mapM_eq_none {α β : Type} (f : α → Option β) (l : List α) (x : α) (hx : x ∈ l)
    (h : f x = none) : l.mapM f = none := by
  induction l with
  | nil => exact absurd hx List.not_mem_nil
  | cons y l ih =>
    rw [List.mapM_cons]
    obtain rfl | hx := List.mem_cons.mp hx
    · rw [h]
      rfl
    · rw [ih hx]
      cases f y <;> rfl

theorem Faulty.read {r : Record} {v : Value} (h : Faulty r v) : (r.read v).toOption = none := by
  induction h with
  | missing r e he hd fs habsent =>
    refine r.read_eq_none fs e he ?_
    rw [e.read_of_absent fs habsent]
    cases e with
    | required => rfl
    | text | optional | texts | records => exact nomatch hd
  | repeated r e he fs hlen =>
    refine r.read_eq_none fs e he ?_
    rw [e.toOption_read]
    match fieldsUnder e.names fs, hlen with
    | _ :: _ :: _, _ => rfl
  | nested r name r' he fs vs hvs v hv _ ih =>
    refine r.read_eq_none fs _ he ?_
    obtain hnone | htake := (Entry.records name r').read_of_mem name (.list vs) fs
      (List.mem_singleton_self name) hvs
    · exact hnone
    · rw [htake, Entry.take_records]
      exact mapM_eq_none _ vs v hv ih

end Record

/-! ## what is written is read back -/

namespace Record

/-- the fields are those of one entry, which is read from them as `c` -/
structure Entry.Holds (e : Entry) (c : e.Content) (fs : List (String × Value)) : Prop where
  names : ∀ f ∈ fs, f.1 ∈ e.names
  read : e.read fs = .ok c

/-- the fields of several entries, one behind the other -/
inductive HoldAll : (es : List Entry) → Contents es → List (String × Value) → Prop
  | nil : HoldAll [] () []
  | cons {e : Entry} {c : e.Content} {fs : List (String × Value)} {es : List Entry}
    {cs : Contents es} {rest : List (String × Value)} (he : e.Holds c fs)
    (hes : HoldAll es cs rest) : HoldAll (e :: es) (c, cs) (fs ++ rest)

theorem HoldAll.names {es : List Entry} {cs : Contents es} {fs : List (String × Value)}
    (h : HoldAll es cs fs) : ∀ f ∈ fs, f.1 ∈ es.flatMap Entry.names := by
  induction h with
  | nil => exact List.forall_mem_nil _
  | cons he _ ih =>
    rw [List.flatMap_cons, List.forall_mem_append]
    exact ⟨fun f hf => List.mem_append_left _ (he.names f hf),
      fun f hf => List.mem_append_right _ (ih f hf)⟩

/-- Fields before them may have any other names. -/
theorem readAll_of_holdAll {es : List Entry} {cs : Contents es} {fs : List (String × Value)}
    (h : HoldAll es cs fs) (hnodup : (es.flatMap Entry.names).Nodup)
    (before : List (String × Value)) (hbefore : ∀ f ∈ before, f.1 ∉ es.flatMap Entry.names) :
    readAll es (before ++ fs) = .ok cs := by
  induction h generalizing before with
  | nil => rfl
  | @cons e c fs es cs rest he hes ih =>
    rw [List.flatMap_cons, List.nodup_append] at hnodup
    simp only [List.flatMap_cons, List.mem_append, not_or] at hbefore
    have hrest : ∀ f ∈ rest, f.1 ∉ e.names := fun f hf hin =>
      hnodup.2.2 f.1 hin f.1 (hes.names f hf) rfl
    have hread : e.read (before ++ (fs ++ rest)) = .ok c := by
      rw [← toOption_eq_some_iff,
        e.read_between before fs rest (fun f hf => (hbefore f hf).1) hrest, he.read]
      rfl
    have hall : readAll es (before ++ (fs ++ rest)) = .ok cs := by
      rw [← List.append_assoc]
      refine ih hnodup.2.1 (before ++ fs) (List.forall_mem_append.mpr ⟨?_, ?_⟩)
      · exact fun f hf => (hbefore f hf).2
      · exact fun f hf hin => hnodup.2.2 f.1 (he.names f hf) f.1 hin rfl
    simp only [readAll, hread, hall]
    rfl

theorem read_of_holdAll (r : Record) {cs : Contents r.entries} {fs : List (String × Value)}
    (h : HoldAll r.entries cs fs) : r.read (.record fs) = .ok (r.build cs) := by
  have hall := readAll_of_holdAll h r.names_nodup [] (List.forall_mem_nil _)
  rw [List.nil_append] at hall
  rw [read_record, hall]
  rfl

/-! ### fields -/

namespace Entry

theorem holds_of_take (e : Entry) (name : String) (hname : name ∈ e.names) (v : Value)
    (c : e.Content) (htake : e.take (some v) = .ok c) : e.Holds c [(name, v)] where
  names := List.forall_mem_singleton.mpr hname
  read := by
    rw [← toOption_eq_some_iff, e.read_cons_of_absent name v [] hname (List.forall_mem_nil _),
      htake]
    rfl

theorem holds_nil (e : Entry) (c : e.Content) (htake : e.take none = .ok c) : e.Holds c [] where
  names := List.forall_mem_nil _
  read := by
    rw [← toOption_eq_some_iff, e.read_of_absent [] (List.forall_mem_nil _), htake]
    rfl

theorem holds_text (name s : String) : (text name).Holds s [(name, .text s)] :=
  (text name).holds_of_take name (List.mem_cons_self ..) (.text s) s rfl

theorem holds_required (name : String) (others : List String) (s : String) :
    (required name others).Holds s [(name, .text s)] :=
  (required name others).holds_of_take name (List.mem_cons_self ..) (.text s) s rfl

theorem holds_optional (name : String) (o : Option String) :
    (optional name).Holds o (Value.optionalField name o) := by
  cases o with
  | none => exact (optional name).holds_nil none rfl
  | some s =>
    exact (optional name).holds_of_take name (List.mem_cons_self ..) (.text s) (some s) rfl

theorem holds_records (name : String) (r : Record) (toValue : r.Content → Value)
    (hread : ∀ x, r.read (toValue x) = .ok x) (xs : List r.Content) :
    (records name r).Holds xs [(name, .list (xs.map toValue))] :=
  (records name r).holds_of_take name (List.mem_cons_self ..) _ xs
    (mapM_map_eq_self toValue r.read hread xs)

/-- a list that is left out when it is empty -/
theorem holds_nonempty (e : Entry) (name : String) (vs : List Value) (c : e.Content)
    (hfull : e.Holds c [(name, .list vs)]) (hempty : vs = [] → e.take none = .ok c) :
    e.Holds c (Value.nonemptyField name vs) := by
  cases vs with
  | nil => exact holds_nil e c (hempty rfl)
  | cons v vs => exact hfull

theorem holds_nonempty_records (name : String) (r : Record) (toValue : r.Content → Value)
    (hread : ∀ x, r.read (toValue x) = .ok x) (xs : List r.Content) :
    (records name r).Holds xs (Value.nonemptyField name (xs.map toValue)) := by
  refine holds_nonempty (records name r) name _ xs (holds_records name r toValue hread xs) ?_
  intro hnil
  rw [List.map_eq_nil_iff.mp hnil]
  rfl

theorem holds_texts (name : String) (ss : List String) :
    (texts name).Holds ss (Value.nonemptyField name (ss.map .text)) := by
  refine holds_nonempty (texts name) name _ ss ?_ fun hnil => ?_
  · exact (texts name).holds_of_take name (List.mem_cons_self ..) _ ss
      (mapM_map_eq_self Value.text Value.readText (fun _ => rfl) ss)
  · rw [List.map_eq_nil_iff.mp hnil]
    rfl

end Entry

/-! ### records -/

theorem read_cmd (line : String) : read cmd (.record [("cmd", .text line)]) = .ok line :=
  read_of_holdAll cmd (.cons (Entry.holds_required "cmd" [] line) .nil)

theorem read_sysctl (value : String) :
    read sysctl (.record [("sysctl", .text value)]) = .ok value :=
  read_of_holdAll sysctl (.cons (Entry.holds_required "sysctl" ["string"] value) .nil)

theorem holds_cmds (cmds : List String) :
    (Entry.records "cmds" cmd).Holds cmds [("cmds", cmdsToValue cmds)] :=
  Entry.holds_records "cmds" cmd _ read_cmd cmds

theorem read_interface (i : Interface) : read interface i.toValue = .ok i := by
  have h := read_of_holdAll interface (.cons (Entry.holds_text "name" i.name)
    (.cons (Entry.holds_text "type" i.type) (.cons (Entry.holds_optional "args" i.args)
    (.cons (Entry.holds_optional "addr" i.addr) .nil))))
  rw [List.append_nil] at h
  exact h

theorem holds_interfaces (is : List Interface) :
    (Entry.records "interfaces" interface).Holds is [("interfaces", Interface.listToValue is)] :=
  Entry.holds_records "interfaces" interface _ read_interface is

theorem read_node (n : Node) : read node n.toValue = .ok n := by
  have h := read_of_holdAll node (.cons (Entry.holds_text "name" n.name)
    (.cons (Entry.holds_optional "type" n.type) (.cons (Entry.holds_optional "net_base" n.netBase)
    (.cons (Entry.holds_optional "image" n.image) (.cons (holds_interfaces n.interfaces)
    (.cons (Entry.holds_nonempty_records "sysctls" sysctl _ read_sysctl n.sysctls)
    (.cons (Entry.holds_texts "mounts" n.mounts) .nil)))))))
  rw [List.append_nil] at h
  rw [Node.toValue]
  simp only [List.append_assoc, List.cons_append]
  exact h

theorem read_switch (s : Switch) : read switch s.toValue = .ok s :=
  read_of_holdAll switch (.cons (Entry.holds_text "name" s.name)
    (.cons (holds_interfaces s.interfaces) .nil))

theorem read_hookGroup (g : HookGroup) : read hookGroup g.toValue = .ok g :=
  read_of_holdAll hookGroup (.cons (holds_cmds g.cmds) .nil)

theorem read_nodeConfig (c : NodeConfig) : read nodeConfig c.toValue = .ok c :=
  read_of_holdAll nodeConfig
    (.cons (Entry.holds_text "name" c.name) (.cons (holds_cmds c.cmds) .nil))

theorem read_test (t : Test) : read test t.toValue = .ok t :=
  read_of_holdAll test (.cons (Entry.holds_text "name" t.name) (.cons (holds_cmds t.cmds) .nil))

theorem read_topology (t : Topology) : read topology t.toValue = .ok t :=
  read_of_holdAll topology
    (.cons (Entry.holds_records "precmd" hookGroup _ read_hookGroup t.precmd)
    (.cons (Entry.holds_records "preinit" hookGroup _ read_hookGroup t.preinit)
    (.cons (Entry.holds_records "postinit" hookGroup _ read_hookGroup t.postinit)
    (.cons (Entry.holds_records "postfini" hookGroup _ read_hookGroup t.postfini)
    (.cons (Entry.holds_records "nodes" node _ read_node t.nodes)
    (.cons (Entry.holds_records "switches" switch _ read_switch t.switches)
    (.cons (Entry.holds_records "node_configs" nodeConfig _ read_nodeConfig t.nodeConfigs)
    (.cons (Entry.holds_records "test" test _ read_test t.tests) .nil))))))))

end Record

namespace Topology

/-- **A topology reads back from every presentation of it.**  What is written of a topology is read
as that topology, and so is everything that presents the same; a document with a faulty record in it
is refused. -/
theorem ofValue_presented (t : Topology) (v : Value) :
    ofValue t.toValue = .ok t ∧
    (Record.topology.Alike t.toValue v → ofValue v = .ok t) ∧
    (Record.topology.Faulty v → ∃ e, ofValue v = .error e) := by
  have hwritten : ofValue t.toValue = .ok t := Record.read_topology t
  refine ⟨hwritten, fun halike => ?_, fun hfaulty => ?_⟩
  · have hsame : (ofValue t.toValue).toOption = (ofValue v).toOption := halike.read
    rw [← toOption_eq_some_iff, ← hsame, hwritten]
    rfl
  · have hnone : (ofValue v).toOption = none := hfaulty.read
    cases hread : ofValue v with
    | error e => exact ⟨e, rfl⟩
    | ok t' =>
      rw [hread] at hnone
      exact nomatch hnone

namespace Forwarding

/-- one container that forwards packets -/
def topology : Topology where
  nodes := [{ name := "R1", image := some "ubuntu", sysctls := ["net.ipv4.ip_forward=1"] }]

/-- the sections behind the nodes left out, the kernel parameter under its former name, an absent
type written out, and a field that nobody knows -/
def document : Value :=
  .record
    [ ("version", .text "1"),
      ("nodes", .list
        [ .record
          [ ("type", .null),
            ("sysctls", .list [.record [("string", .text "net.ipv4.ip_forward=1")]]),
            ("interfaces", .list []),
            ("image", .text "ubuntu"),
            ("name", .text "R1") ] ]),
      ("postfini", .list []),
      ("postinit", .list []),
      ("preinit", .list []),
      ("precmd", .list []) ]

/-- a kernel parameter under both of its names -/
def twofold : Value :=
  .record [("nodes", .list [.record [("sysctls", .list
    [.record [("sysctl", .text "a=1"), ("string", .text "a=1")]])]])]

theorem alike_document : Record.topology.Alike topology.toValue document := by
  have hnode : Record.node.Alike
      (.record [("name", .text "R1"), ("image", .text "ubuntu"), ("interfaces", .list []),
        ("sysctls", .list [.record [("sysctl", .text "net.ipv4.ip_forward=1")]])])
      (.record [("type", .null),
        ("sysctls", .list [.record [("string", .text "net.ipv4.ip_forward=1")]]),
        ("interfaces", .list []), ("image", .text "ubuntu"), ("name", .text "R1")]) := by
    refine .trans (.reordered _ _ _ (List.reverse_perm _).symm) ?_
    refine .trans (.nested _ "sysctls" .sysctl (by decide) [] [] _ _ ?_ _)
      (.default _ (.optional "type") (by decide) "type" (by decide) _ rfl _ (by decide))
    exact .renamed _ (.required "sysctl" ["string"]) (by decide) "sysctl" "string" (by decide)
      (by decide) _ _
  refine .trans (.reordered _ _ _ (List.reverse_perm _).symm) ?_
  refine .trans (.symm (.default _ (.records "test" .test) (by decide) "test" (by decide) _ rfl _
    (by decide))) ?_
  refine .trans (.symm (.default _ (.records "node_configs" .nodeConfig) (by decide) "node_configs"
    (by decide) _ rfl _ (by decide))) ?_
  refine .trans (.symm (.default _ (.records "switches" .switch) (by decide) "switches"
    (by decide) _ rfl _ (by decide))) ?_
  refine .trans (.nested _ "nodes" .node (by decide) [] [] _ _ hnode _) ?_
  exact .unknown _ "version" _ _ (by decide)

theorem faulty_twofold : Record.topology.Faulty twofold := by
  refine .nested _ "nodes" .node (by decide) _ _ (List.mem_singleton_self _) _
    (List.mem_singleton_self _) ?_
  refine .nested _ "sysctls" .sysctl (by decide) _ _ (List.mem_singleton_self _) _
    (List.mem_singleton_self _) ?_
  exact .repeated _ (.required "sysctl" ["string"]) (by decide) _ (by decide)

end Forwarding

theorem ofValue_presented_forwarding :
    Record.topology.Alike Forwarding.topology.toValue Forwarding.document ∧
    ofValue Forwarding.document = .ok Forwarding.topology ∧
    Record.topology.Faulty Forwarding.twofold ∧ ∃ e, ofValue Forwarding.twofold = .error e := by
  have hread := (ofValue_presented Forwarding.topology Forwarding.document).2.1
  have hrefused := (ofValue_presented Forwarding.topology Forwarding.twofold).2.2
  exact ⟨Forwarding.alike_document, hread Forwarding.alike_document, Forwarding.faulty_twofold,
    hrefused Forwarding.faulty_twofold⟩

end Topology

end Netlab
