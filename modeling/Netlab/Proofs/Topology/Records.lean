import Mathlib.Data.List.Perm.Basic
import Netlab.Topology.Decode

/-!
# Records read field by field

The readers of a topology are all of one kind: each takes the fields of a record one by one, and a
field is looked up by its names among all the fields that are there.  `Record.entries` lists the
fields of every record, and reading a record is reading these.

* `Record.read_record`     a record is what its fields are read as, put together;
* `Record.read_congr`      so it depends on its fields only;
* `Record.read_eq_none`    and it is refused if one of them is;
* `Entry.toOption_read`    a field has the value that stands under one of its names, the default if
                           there is none, and is refused if there are two.
-/

namespace Netlab

/-! ## successes -/

theorem toOption_bind {ε α β : Type} (x : Except ε α) (f : α → Except ε β) :
    (x >>= f).toOption = x.toOption.bind fun a => (f a).toOption := by
  cases x <;> rfl

theorem toOption_eq_some_iff {ε α : Type} (x : Except ε α) (a : α) :
    x.toOption = some a ↔ x = .ok a := by
  cases x <;> simp [Except.toOption]

theorem toOption_mapM {ε α β : Type} (f : α → Except ε β) (l : List α) :
    (l.mapM f).toOption = l.mapM fun x => (f x).toOption := by
  induction l with
  | nil => rfl
  | cons x l ih =>
    rw [List.mapM_cons, List.mapM_cons, toOption_bind]
    refine Option.bind_congr fun y _ => ?_
    rw [toOption_bind, ih]
    rfl

/-! ## records and their fields -/

/-- the records that a topology is made of -/
inductive Record where
  | topology
  | hookGroup
  | cmd
  | node
  | sysctl
  | interface
  | switch
  | nodeConfig
  | test
deriving DecidableEq

namespace Record

/-- what a record is read as -/
abbrev Content : Record → Type
  | topology => Topology
  | hookGroup => HookGroup
  | node => Node
  | interface => Interface
  | switch => Switch
  | nodeConfig => NodeConfig
  | test => Test
  | cmd | sysctl => String

def read : (r : Record) → Value → Except Misfit r.Content
  | topology => Value.view.topology
  | hookGroup => Value.view.hookGroup
  | cmd => Value.view.cmd
  | node => Value.view.node
  | sysctl => Value.view.sysctl
  | interface => Value.view.interface
  | switch => Value.view.switch
  | nodeConfig => Value.view.nodeConfig
  | test => Value.view.test

/-- what a field of a record holds, with the names that it may stand under -/
inductive Entry where
  | text (name : String)
  /-- a text or nothing -/
  | optional (name : String)
  /-- a text that must be there -/
  | required (name : String) (others : List String)
  | texts (name : String)
  | records (name : String) (record : Record)
deriving DecidableEq

namespace Entry

def names : Entry → List String
  | text name | optional name | texts name | records name _ => [name]
  | required name others => name :: others

/-- the default, if a field has one, as it may be written -/
def default? : Entry → Option Value
  | text _ => some (.text "")
  | optional _ => some .null
  | required .. => none
  | texts _ | records .. => some (.list [])

/-- what a field is read as -/
abbrev Content : Entry → Type
  | text _ | required .. => String
  | optional _ => Option String
  | texts _ => List String
  | records _ r => List r.Content

/-- a field read from its value, or without one -/
def take : (e : Entry) → Option Value → Except Misfit e.Content
  | text _, v => v.elim (.ok "") Value.view.text
  | optional _, v => v.elim (.ok none) Value.view.optional
  | required name _, v => v.elim (.error (.missing name)) Value.view.text
  | texts _, v => v.elim (.ok []) (Value.view.list Value.view.text)
  | records _ r, v => v.elim (.ok []) (Value.view.list r.read)

/-- a field read from all fields of its record -/
def read : (e : Entry) → List (String × Value) → Except Misfit e.Content
  | text name, fs => Value.view.textD fs name
  | optional name, fs => Value.view.optionalD fs name
  | required name others, fs => View.required fs name others Value.view.text
  | texts name, fs => Value.view.listD fs name Value.view.text
  | records name r, fs => Value.view.listD fs name r.read

theorem read_eq (e : Entry) (fs : List (String × Value)) :
    e.read fs = View.field? fs e.names >>= e.take := by
  cases e <;> refine bind_congr fun v => ?_ <;> cases v <;> rfl

end Entry

/-- the fields of a record -/
def entries : Record → List Entry
  | topology =>
    [ .records "precmd" hookGroup, .records "preinit" hookGroup, .records "postinit" hookGroup,
      .records "postfini" hookGroup, .records "nodes" node, .records "switches" switch,
      .records "node_configs" nodeConfig, .records "test" test ]
  | hookGroup => [.records "cmds" cmd]
  | cmd => [.required "cmd" []]
  | node =>
    [ .text "name", .optional "type", .optional "net_base", .optional "image",
      .records "interfaces" interface, .records "sysctls" sysctl, .texts "mounts" ]
  | sysctl => [.required "sysctl" ["string"]]
  | interface => [.text "name", .text "type", .optional "args", .optional "addr"]
  | switch => [.text "name", .records "interfaces" interface]
  | nodeConfig | test => [.text "name", .records "cmds" cmd]

/-- what a list of fields is read as -/
abbrev Contents : List Entry → Type
  | [] => Unit
  | e :: es => e.Content × Contents es

def readAll : (es : List Entry) → List (String × Value) → Except Misfit (Contents es)
  | [], _ => return ()
  | e :: es, fs => do return (← e.read fs, ← readAll es fs)

/-- a record from what its fields hold -/
def build : (r : Record) → Contents r.entries → r.Content
  | topology, (precmd, preinit, postinit, postfini, nodes, switches, nodeConfigs, tests, ()) =>
    ⟨precmd, preinit, postinit, postfini, nodes, switches, nodeConfigs, tests⟩
  | hookGroup, (cmds, ()) => ⟨cmds⟩
  | cmd, (line, ()) => line
  | node, (name, type, netBase, image, interfaces, sysctls, mounts, ()) =>
    ⟨name, type, netBase, image, interfaces, sysctls, mounts⟩
  | sysctl, (value, ()) => value
  | interface, (name, type, args, addr, ()) => ⟨name, type, args, addr⟩
  | switch, (name, interfaces, ()) => ⟨name, interfaces⟩
  | nodeConfig, (name, cmds, ()) => ⟨name, cmds⟩
  | test, (name, cmds, ()) => ⟨name, cmds⟩

theorem fields_record (names : List String) (fs : List (String × Value)) :
    Value.view.fields names (.record fs) = pure fs := rfl

/-- a record is read field by field -/
theorem read_record (r : Record) (fs : List (String × Value)) :
    r.read (.record fs) = do return r.build (← readAll r.entries fs) := by
  cases r <;>
    simp only [read, View.topology, View.hookGroup, View.cmd, View.node, View.sysctl,
      View.interface, View.switch, View.nodeConfig, View.test, fields_record, entries, readAll,
      Entry.read, bind_assoc, pure_bind, bind_pure, build]

theorem readAll_congr (es : List Entry) (fs fs' : List (String × Value))
    (h : ∀ e ∈ es, (e.read fs).toOption = (e.read fs').toOption) :
    (readAll es fs).toOption = (readAll es fs').toOption := by
  induction es with
  | nil => rfl
  | cons e es ih =>
    obtain ⟨he, hes⟩ := List.forall_mem_cons.mp h
    simp only [readAll, toOption_bind, he, ih hes]

theorem readAll_eq_none (es : List Entry) (fs : List (String × Value)) (e : Entry) (he : e ∈ es)
    (hnone : (e.read fs).toOption = none) : (readAll es fs).toOption = none := by
  induction es with
  | nil => exact absurd he List.not_mem_nil
  | cons e' es ih =>
    obtain rfl | he := List.mem_cons.mp he
    · simp only [readAll, toOption_bind, hnone, Option.bind_none]
    · simp only [readAll, toOption_bind, ih he, Option.bind_none, Option.bind_fun_none]

/-- what a record is read as depends on what each of its fields is read as -/
theorem read_congr (r : Record) (fs fs' : List (String × Value))
    (h : ∀ e ∈ r.entries, (e.read fs).toOption = (e.read fs').toOption) :
    (r.read (.record fs)).toOption = (r.read (.record fs')).toOption := by
  rw [read_record, read_record, toOption_bind, toOption_bind, readAll_congr r.entries fs fs' h]

theorem read_eq_none (r : Record) (fs : List (String × Value)) (e : Entry) (he : e ∈ r.entries)
    (hnone : (e.read fs).toOption = none) : (r.read (.record fs)).toOption = none := by
  rw [read_record, toOption_bind, readAll_eq_none r.entries fs e he hnone, Option.bind_none]

/-- all names that the fields of a record may stand under -/
def names (r : Record) : List String := r.entries.flatMap Entry.names

theorem names_nodup (r : Record) : r.names.Nodup := by
  cases r <;> decide

/-- no two fields of a record share a name -/
theorem entry_unique (r : Record) : ∀ e ∈ r.entries, ∀ e' ∈ r.entries, ∀ name ∈ e.names,
    name ∈ e'.names → e = e' := by
  cases r <;> decide

end Record

/-! ## the fields of one name -/

/-- the fields that stand under one of the names -/
def fieldsUnder (names : List String) (fs : List (String × Value)) : List (String × Value) :=
  fs.filter fun f => names.contains f.1

section
variable (names : List String)

theorem fieldsUnder_cons_of_mem (name : String) (v : Value) (fs : List (String × Value))
    (h : name ∈ names) : fieldsUnder names ((name, v) :: fs) = (name, v) :: fieldsUnder names fs :=
  List.filter_cons_of_pos (List.contains_iff_mem.mpr h)

theorem fieldsUnder_cons_of_not_mem (name : String) (v : Value) (fs : List (String × Value))
    (h : name ∉ names) : fieldsUnder names ((name, v) :: fs) = fieldsUnder names fs :=
  List.filter_cons_of_neg (by simpa using h)

theorem fieldsUnder_eq_nil (fs : List (String × Value)) (h : ∀ f ∈ fs, f.1 ∉ names) :
    fieldsUnder names fs = [] := List.filter_eq_nil_iff.mpr fun f hf => by simpa using h f hf

theorem fieldsUnder_append (fs fs' : List (String × Value)) :
    fieldsUnder names (fs ++ fs') = fieldsUnder names fs ++ fieldsUnder names fs' :=
  List.filter_append ..

theorem mem_fieldsUnder (fs : List (String × Value)) (f : String × Value) :
    f ∈ fieldsUnder names fs ↔ f ∈ fs ∧ f.1 ∈ names := by
  rw [fieldsUnder, List.mem_filter, List.contains_iff_mem]

/-- a field is there once at most: its value if it is there, and an error if it is there twice -/
theorem toOption_field? (fs : List (String × Value)) :
    (View.field? fs names : Except Misfit (Option Value)).toOption = match fieldsUnder names fs with
      | [] => some none
      | [(_, v)] => some (some v)
      | _ => none := by
  rw [View.field?, ← fieldsUnder]
  match fieldsUnder names fs with
  | [] => rfl
  | [_] => rfl
  | _ :: _ :: _ => rfl

end

namespace Record

/-- reading a field takes its value, unless it is there twice -/
theorem Entry.toOption_read (e : Entry) (fs : List (String × Value)) :
    (e.read fs).toOption = match fieldsUnder e.names fs with
      | [] => (e.take none).toOption
      | [(_, v)] => (e.take (some v)).toOption
      | _ => none := by
  rw [read_eq, toOption_bind, toOption_field?]
  match fieldsUnder e.names fs with
  | [] => rfl
  | [(_, v)] => rfl
  | _ :: _ :: _ => rfl

namespace Entry
variable (e : Entry)

theorem read_perm (fs fs' : List (String × Value)) (h : fs.Perm fs') :
    (e.read fs).toOption = (e.read fs').toOption := by
  have hunder : (fieldsUnder e.names fs).Perm (fieldsUnder e.names fs') := h.filter _
  rw [toOption_read, toOption_read]
  cases hfs : fieldsUnder e.names fs with
  | nil =>
    rw [hfs] at hunder
    rw [hunder.symm.eq_nil]
  | cons f rest =>
    cases rest with
    | nil =>
      rw [hfs] at hunder
      rw [hunder.symm.eq_singleton]
    | cons f' rest =>
      -- two fields on one side are two on the other, in some order
      obtain ⟨g, g', rest', hfs'⟩ : ∃ g g' rest', fieldsUnder e.names fs' = g :: g' :: rest' := by
        rw [hfs] at hunder
        match fieldsUnder e.names fs', hunder.length_eq with
        | g :: g' :: rest', _ => exact ⟨g, g', rest', rfl⟩
      rw [hfs']

theorem read_cons_of_not_mem (name : String) (v : Value) (fs : List (String × Value))
    (h : name ∉ e.names) : (e.read ((name, v) :: fs)).toOption = (e.read fs).toOption := by
  rw [toOption_read, toOption_read, fieldsUnder_cons_of_not_mem _ _ _ _ h]

theorem read_cons_of_absent (name : String) (v : Value) (fs : List (String × Value))
    (h : name ∈ e.names) (habsent : ∀ f ∈ fs, f.1 ∉ e.names) :
    (e.read ((name, v) :: fs)).toOption = (e.take (some v)).toOption := by
  rw [toOption_read, fieldsUnder_cons_of_mem _ _ _ _ h, fieldsUnder_eq_nil _ fs habsent]

theorem read_of_absent (fs : List (String × Value)) (habsent : ∀ f ∈ fs, f.1 ∉ e.names) :
    (e.read fs).toOption = (e.take none).toOption := by
  rw [toOption_read, fieldsUnder_eq_nil _ fs habsent]

/-- fields of other names do not matter -/
theorem read_between (before fs after : List (String × Value))
    (hbefore : ∀ f ∈ before, f.1 ∉ e.names) (hafter : ∀ f ∈ after, f.1 ∉ e.names) :
    (e.read (before ++ (fs ++ after))).toOption = (e.read fs).toOption := by
  rw [toOption_read, toOption_read, fieldsUnder_append, fieldsUnder_append,
    fieldsUnder_eq_nil _ before hbefore, fieldsUnder_eq_nil _ after hafter, List.nil_append,
    List.append_nil]

/-- a field that is there is refused or has that value -/
theorem read_of_mem (name : String) (v : Value) (fs : List (String × Value)) (h : name ∈ e.names)
    (hmem : (name, v) ∈ fs) :
    (e.read fs).toOption = none ∨ (e.read fs).toOption = (e.take (some v)).toOption := by
  have hunder : (name, v) ∈ fieldsUnder e.names fs := (mem_fieldsUnder _ fs _).mpr ⟨hmem, h⟩
  rw [toOption_read]
  match fieldsUnder e.names fs, hunder with
  | [f], hf =>
    obtain rfl := List.mem_singleton.mp hf
    exact Or.inr rfl
  | _ :: _ :: _, _ => exact Or.inl rfl

/-- what stands under which of its names does not matter, as long as it is taken for the same -/
theorem read_cons_congr (name name' : String) (v v' : Value) (fs : List (String × Value))
    (h : name ∈ e.names) (h' : name' ∈ e.names)
    (htake : (e.take (some v)).toOption = (e.take (some v')).toOption) :
    (e.read ((name, v) :: fs)).toOption = (e.read ((name', v') :: fs)).toOption := by
  rw [toOption_read, toOption_read, fieldsUnder_cons_of_mem _ _ _ _ h,
    fieldsUnder_cons_of_mem _ _ _ _ h']
  cases fieldsUnder e.names fs with
  | nil => exact htake
  | cons f rest => rfl

theorem take_default (d : Value) (h : e.default? = some d) : e.take none = e.take (some d) := by
  cases e with
  | required => exact nomatch h
  | text | optional | texts | records =>
    obtain rfl := Option.some.inj h
    rfl

theorem take_records (name : String) (r : Record) (vs : List Value) :
    ((records name r).take (some (.list vs))).toOption = vs.mapM fun v => (r.read v).toOption :=
  toOption_mapM r.read vs

end Entry

end Record

end Netlab
