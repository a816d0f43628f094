import Mathlib.Data.List.Basic
import Netlab.Proofs.Topology.LegacyLines

/-!
# Where a document uses the former name of the sysctl field

`Node.IsLegacy` says of a document that some mapping inside the value of a `sysctls` key has the key
`string`.  In the lines of an outline, each with the column of the `sysctls` key whose value it is
in, that is a line with this key in some such value: `Block.isTold_iff`.
-/

namespace Netlab

open Yaml

/-! ## documents that use the name -/

namespace Yaml.Node

def isNamed (name : String) : Node → Bool
  | .scalar _ _ text => text == name
  | _ => false

/-- The node is a mapping that gives the key the value. -/
def Maps : Node → String → Node → Prop
  | .map entries, name, value => ∃ key, (key, value) ∈ entries ∧ key.isNamed name = true
  | _, _, _ => False

/-- The first node is inside the second, or is the same. -/
inductive Inside : Node → Node → Prop
  | refl (n : Node) : Inside n n
  | item {n m : Node} {items : List Node} (h : Inside n m) (hm : m ∈ items) :
    Inside n (.list items)
  | value {n key m : Node} {entries : List (Node × Node)} (h : Inside n m)
    (hm : (key, m) ∈ entries) : Inside n (.map entries)

/-- Some mapping inside the node has the key. -/
def Mentions (name : String) (n : Node) : Prop := ∃ m value, Inside m n ∧ m.Maps name value

/-- Some mapping inside the value of a `sysctls` key has the key `string`. -/
def IsLegacy (n : Node) : Prop :=
  ∃ m value, Inside m n ∧ m.Maps "sysctls" value ∧ value.Mentions "string"

/-- Whether the former name is used in a node, which is in the value of a `sysctls` key or not. -/
def IsLegacyIn (n : Node) : Bool → Prop
  | true => n.Mentions "string"
  | false => n.IsLegacy

theorem Inside.trans {n m k : Node} (h : Inside n m) (hm : Inside m k) : Inside n k := by
  induction hm with
  | refl => exact h
  | item _ hmem ih => exact .item ih hmem
  | value _ hmem ih => exact .value ih hmem

theorem Maps.inside {n value : Node} {name : String} (h : n.Maps name value) : Inside value n := by
  cases n with
  | map entries =>
    obtain ⟨key, hmem, _⟩ := h
    exact .value (.refl value) hmem
  | _ => cases h

theorem IsLegacy.mentions {n : Node} (h : n.IsLegacy) : n.Mentions "string" := by
  obtain ⟨m, value, hinside, hmaps, m', value', hinside', hmaps'⟩ := h
  exact ⟨m', value', hinside'.trans (hmaps.inside.trans hinside), hmaps'⟩

theorem not_isLegacyIn_scalar (tag : Option String) (plain : Bool) (text : String)
    (inside : Bool) : ¬ (scalar tag plain text).IsLegacyIn inside := by
  cases inside with
  | true =>
    rintro ⟨m, value, hinside, hmaps⟩
    cases hinside
    cases hmaps
  | false =>
    rintro ⟨m, value, hinside, hmaps, _⟩
    cases hinside
    cases hmaps

theorem isLegacyIn_list (items : List Node) (inside : Bool) :
    (list items).IsLegacyIn inside ↔ ∃ n ∈ items, n.IsLegacyIn inside := by
  cases inside with
  | true =>
    constructor
    · rintro ⟨m, value, hinside, hmaps⟩
      cases hinside with
      | refl => cases hmaps
      | item h hmem => exact ⟨_, hmem, m, value, h, hmaps⟩
    · rintro ⟨n, hmem, m, value, h, hmaps⟩
      exact ⟨m, value, .item h hmem, hmaps⟩
  | false =>
    constructor
    · rintro ⟨m, value, hinside, hmaps, hmentions⟩
      cases hinside with
      | refl => cases hmaps
      | item h hmem => exact ⟨_, hmem, m, value, h, hmaps, hmentions⟩
    · rintro ⟨n, hmem, m, value, h, hmaps, hmentions⟩
      exact ⟨m, value, .item h hmem, hmaps, hmentions⟩

/-- an entry of a mapping is the former name itself, or has it in its value -/
theorem isLegacyIn_map (entries : List (Node × Node)) (inside : Bool) :
    (map entries).IsLegacyIn inside ↔ ∃ e ∈ entries, (inside = true ∧ e.1.isNamed "string" = true)
      ∨ e.2.IsLegacyIn (inside || e.1.isNamed "sysctls") := by
  cases inside with
  | true =>
    constructor
    · rintro ⟨m, value, hinside, hmaps⟩
      cases hinside with
      | refl =>
        obtain ⟨key, hmem, hnamed⟩ := hmaps
        exact ⟨(key, value), hmem, Or.inl ⟨rfl, hnamed⟩⟩
      | value h hmem => exact ⟨_, hmem, Or.inr ⟨m, value, h, hmaps⟩⟩
    · rintro ⟨⟨key, value⟩, hmem, ⟨_, hnamed⟩ | ⟨m, value', h, hmaps⟩⟩
      · exact ⟨_, value, .refl _, key, hmem, hnamed⟩
      · exact ⟨m, value', .value h hmem, hmaps⟩
  | false =>
    constructor
    · rintro ⟨m, value, hinside, hmaps, hmentions⟩
      cases hinside with
      | refl =>
        obtain ⟨key, hmem, hnamed⟩ := hmaps
        refine ⟨(key, value), hmem, Or.inr ?_⟩
        rw [hnamed]
        exact hmentions
      | @value key below _ h hmem =>
        have hlegacy : below.IsLegacy := ⟨m, value, h, hmaps, hmentions⟩
        refine ⟨(key, below), hmem, Or.inr ?_⟩
        -- inside a `sysctls` key that is in this value, the name is all the more mentioned in it
        cases key.isNamed "sysctls" with
        | true => exact hlegacy.mentions
        | false => exact hlegacy
    · rintro ⟨⟨key, value⟩, hmem, ⟨hinside, _⟩ | hvalue⟩
      · cases hinside
      · cases hnamed : key.isNamed "sysctls" with
        | true =>
          rw [hnamed] at hvalue
          exact ⟨_, value, .refl _, ⟨key, hmem, hnamed⟩, hvalue⟩
        | false =>
          rw [hnamed] at hvalue
          obtain ⟨m, value', h, hmaps, hmentions⟩ := hvalue
          exact ⟨m, value', .value h hmem, hmaps, hmentions⟩

end Yaml.Node

/-! ## lines and the keys they are below -/

namespace Yaml

/-- a line and the column of the innermost `sysctls` key whose value it is in -/
structure Placed where
  outer : Option Nat
  line : Line

namespace Placed

def isClear (p : Placed) : Bool := p.line.isClear p.outer

/-- whether the line starts with the former name outside the value of a `sysctls` key -/
def isStray (p : Placed) : Bool :=
  p.outer.isNone && (p.line.isKey "string" || p.line.feigns "string")

/-- whether the line holds the former name -/
def isTold (p : Placed) : Bool := p.outer.isSome && p.line.isKey "string"

theorem not_isTold (outer : Option Nat) (l : Line) (h : l.body.key? = none) :
    ¬ isTold ⟨outer, l⟩ = true := by
  intro htold
  have hkey : l.isKey "string" = true := (Bool.and_eq_true_iff.mp htold).2
  rw [Line.isKey, h] at hkey
  cases hkey

end Placed

mutual

def Block.placed (outer : Option Nat) (l : Lead) : Block → List Placed
  | .scalar s trail => [⟨outer, ⟨l, .scalar s, trail⟩⟩]
  | .list items => items.placed outer l
  | .map entries => entries.placed outer l

def Items.placed (outer : Option Nat) (l : Lead) : Items → List Placed
  | .last item => item.placed outer l
  | .more item items => item.placed outer l ++ items.placed outer ⟨l.column, []⟩

def Item.placed (outer : Option Nat) (l : Lead) : Item → List Placed
  | .empty trail => [⟨outer, ⟨l, .dash, trail⟩⟩]
  | .beside gap b => b.placed outer (l.dash gap)
  | .under trail offset b =>
    ⟨outer, ⟨l, .dash, trail⟩⟩ :: b.placed outer ⟨l.column + 1 + offset, []⟩

def Entries.placed (outer : Option Nat) (l : Lead) : Entries → List Placed
  | .last key value => value.placed outer l key
  | .more key value entries => value.placed outer l key ++ entries.placed outer ⟨l.column, []⟩

def Value.placed (outer : Option Nat) (l : Lead) (key : Word) : Value → List Placed
  | .empty trail => [⟨outer, ⟨l, .key key, trail⟩⟩]
  | .beside gap s trail => [⟨outer, ⟨l, .pair key gap s, trail⟩⟩]
  | .under trail offset b =>
    ⟨outer, ⟨l, .key key, trail⟩⟩
      :: b.placed (Line.inner outer ⟨l, .key key, trail⟩) ⟨l.column + 1 + offset, []⟩
  | .level trail items =>
    ⟨outer, ⟨l, .key key, trail⟩⟩
      :: items.placed (Line.inner outer ⟨l, .key key, trail⟩) ⟨l.column, []⟩

end

mutual

theorem Block.map_placed (outer : Option Nat) (l : Lead) (b : Block) :
    (b.placed outer l).map Placed.line = b.lines l := by
  cases b with
  | scalar s trail => rfl
  | list items => exact items.map_placed outer l
  | map entries => exact entries.map_placed outer l

theorem Items.map_placed (outer : Option Nat) (l : Lead) (items : Items) :
    (items.placed outer l).map Placed.line = items.lines l := by
  cases items with
  | last item => exact item.map_placed outer l
  | more item items =>
    rw [Items.placed, Items.lines, List.map_append, item.map_placed, items.map_placed]

theorem Item.map_placed (outer : Option Nat) (l : Lead) (item : Item) :
    (item.placed outer l).map Placed.line = item.lines l := by
  cases item with
  | empty trail => rfl
  | beside gap b => exact b.map_placed outer (l.dash gap)
  | under trail offset b => rw [Item.placed, Item.lines, List.map_cons, b.map_placed]

theorem Entries.map_placed (outer : Option Nat) (l : Lead) (entries : Entries) :
    (entries.placed outer l).map Placed.line = entries.lines l := by
  cases entries with
  | last key value => exact value.map_placed outer l key
  | more key value entries =>
    rw [Entries.placed, Entries.lines, List.map_append, value.map_placed, entries.map_placed]

theorem Value.map_placed (outer : Option Nat) (l : Lead) (key : Word) (value : Value) :
    (value.placed outer l key).map Placed.line = value.lines l key := by
  cases value with
  | empty trail => rfl
  | beside gap s trail => rfl
  | under trail offset b => rw [Value.placed, Value.lines, List.map_cons, b.map_placed]
  | level trail items => rw [Value.placed, Value.lines, List.map_cons, items.map_placed]

end

/-! ### where the name is told -/

theorem Word.isNamed (k : Word) (name : String) :
    k.node.isNamed name = (k.chars == name.toList) := by
  show (String.ofList k.chars == name) = _
  rw [Bool.eq_iff_iff, beq_iff_eq, beq_iff_eq]
  constructor
  · rintro rfl
    exact String.toList_ofList.symm
  · intro h
    rw [h, String.ofList_toList]

theorem isSome_inner (outer : Option Nat) (l : Lead) (key : Word) (trail : Nat) :
    (Line.inner outer ⟨l, .key key, trail⟩).isSome
      = (outer.isSome || key.node.isNamed "sysctls") := by
  rw [key.isNamed]
  show (if (key.chars == "sysctls".toList) = true then some l.column else outer).isSome = _
  split
  · next h => rw [h, Bool.or_true]; rfl
  · next h => rw [Bool.eq_false_iff.mpr h, Bool.or_false]

-- one induction over all kinds of blocks: the lines of a part are those of its parts, and so are
-- the places where the name can be
mutual

theorem Block.isTold_iff (outer : Option Nat) (l : Lead) (b : Block) :
    (∃ p ∈ b.placed outer l, p.isTold = true) ↔ b.node.IsLegacyIn outer.isSome := by
  cases b with
  | scalar s trail =>
    simp only [Block.placed, List.mem_singleton, exists_eq_left]
    exact iff_of_false (Placed.not_isTold _ _ rfl) (Node.not_isLegacyIn_scalar _ _ _ _)
  | list items => exact (items.isTold_iff outer l).trans (Node.isLegacyIn_list _ _).symm
  | map entries => exact (entries.isTold_iff outer l).trans (Node.isLegacyIn_map _ _).symm

theorem Items.isTold_iff (outer : Option Nat) (l : Lead) (items : Items) :
    (∃ p ∈ items.placed outer l, p.isTold = true)
      ↔ ∃ n ∈ items.nodes, n.IsLegacyIn outer.isSome := by
  cases items with
  | last item =>
    rw [Items.placed, item.isTold_iff, Items.nodes]
    simp only [List.mem_singleton, exists_eq_left]
  | more item items =>
    rw [Items.placed, Items.nodes, List.exists_mem_cons_iff]
    simp only [List.mem_append, or_and_right, exists_or]
    rw [item.isTold_iff, items.isTold_iff]

theorem Item.isTold_iff (outer : Option Nat) (l : Lead) (item : Item) :
    (∃ p ∈ item.placed outer l, p.isTold = true) ↔ item.node.IsLegacyIn outer.isSome := by
  cases item with
  | empty trail =>
    simp only [Item.placed, List.mem_singleton, exists_eq_left]
    exact iff_of_false (Placed.not_isTold _ _ rfl) (Node.not_isLegacyIn_scalar _ _ _ _)
  | beside gap b => exact b.isTold_iff outer (l.dash gap)
  | under trail offset b =>
    rw [Item.placed, List.exists_mem_cons_iff, b.isTold_iff]
    exact or_iff_right (Placed.not_isTold _ _ rfl)

theorem Entries.isTold_iff (outer : Option Nat) (l : Lead) (entries : Entries) :
    (∃ p ∈ entries.placed outer l, p.isTold = true)
      ↔ ∃ e ∈ entries.nodes, (outer.isSome = true ∧ e.1.isNamed "string" = true)
        ∨ e.2.IsLegacyIn (outer.isSome || e.1.isNamed "sysctls") := by
  cases entries with
  | last key value =>
    rw [Entries.placed, value.isTold_iff, Entries.nodes]
    simp only [List.mem_singleton, exists_eq_left]
  | more key value entries =>
    rw [Entries.placed, Entries.nodes, List.exists_mem_cons_iff]
    simp only [List.mem_append, or_and_right, exists_or]
    rw [value.isTold_iff, entries.isTold_iff]

theorem Value.isTold_iff (outer : Option Nat) (l : Lead) (key : Word) (value : Value) :
    (∃ p ∈ value.placed outer l key, p.isTold = true)
      ↔ (outer.isSome = true ∧ key.node.isNamed "string" = true)
        ∨ value.node.IsLegacyIn (outer.isSome || key.node.isNamed "sysctls") := by
  have hkey : (⟨outer, ⟨l, .key key, 0⟩⟩ : Placed).isTold = true
      ↔ outer.isSome = true ∧ key.node.isNamed "string" = true := by
    rw [key.isNamed, Placed.isTold, Bool.and_eq_true]
    rfl
  cases value with
  | empty trail | beside gap s trail =>
    simp only [Value.placed, List.mem_singleton, exists_eq_left]
    exact hkey.trans (or_iff_left (Node.not_isLegacyIn_scalar _ _ _ _)).symm
  | under trail offset b =>
    rw [Value.placed, List.exists_mem_cons_iff, b.isTold_iff, isSome_inner, Value.node]
    exact or_congr hkey Iff.rfl
  | level trail items =>
    rw [Value.placed, List.exists_mem_cons_iff, items.isTold_iff, isSome_inner, Value.node,
      Node.isLegacyIn_list]
    exact or_congr hkey Iff.rfl

end

end Yaml

end Netlab
