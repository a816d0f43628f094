import Netlab.Proofs.Topology.LegacyPlaces
import Netlab.Proofs.Yaml.Nodes
import Netlab.Topology.Parse

/-!
# The former name of the sysctl field is found where it is used

The search (`usesLegacyKey`) sees only lines and remembers one indentation.  Where no dash is in
front of a `sysctls` key, `Placed.Tells` says what a part of an outline does to that indentation: in
the value of the key it stays, and outside it is that of a key that the next line is not indented
enough for.  Of a key behind a dash the search remembers the dash.  The lines of the value are then
still seen as such (`Placed.Finds`), but others may be, too.
-/

namespace Netlab

open Yaml

namespace Yaml

/-! ## what the search remembers -/

namespace Placed

/-- What the search has remembered is the key that the lines are below, or it is left from another
one at the column or further right. -/
def Left (outer : Option Nat) (column : Nat) (seen : Option Nat) : Prop :=
  seen = outer ∨ outer = none ∧ ∃ o, seen = some o ∧ column ≤ o

/-- The search finds the former name in the lines exactly if one of them holds it, and nothing but a
`sysctls` key at the column or further right is left behind. -/
def Tells (outer : Option Nat) (column : Nat) (ps : List Placed) : Prop :=
  ∀ seen, (∀ p ∈ ps.head?, seen.filter (p.line.isBelow ·) = outer) →
    ∃ seen', Left outer column seen' ∧
      ∀ rest, LegacyKey.usedFrom seen (ps.map (·.line.chars) ++ rest) = true
        ↔ (∃ p ∈ ps, p.isTold = true) ∨ LegacyKey.usedFrom seen' rest = true

theorem Left.mono {outer seen : Option Nat} {column column' : Nat} (h : Left outer column seen)
    (hc : column' ≤ column) : Left outer column' seen := by
  rcases h with rfl | ⟨rfl, o, rfl, ho⟩
  · exact Or.inl rfl
  · exact Or.inr ⟨rfl, o, rfl, hc.trans ho⟩

theorem Tells.mono {outer : Option Nat} {column column' : Nat} {ps : List Placed}
    (h : Tells outer column ps) (hc : column' ≤ column) : Tells outer column' ps := by
  intro seen hseen
  obtain ⟨seen', hleft, hrest⟩ := h seen hseen
  exact ⟨seen', hleft.mono hc, hrest⟩

theorem filter_isBelow {outer : Option Nat} {l : Line} (h : l.isClear outer = true) :
    outer.filter (l.isBelow ·) = outer := by
  cases outer with
  | none => rfl
  | some o =>
    simp only [Line.isClear, Bool.and_eq_true, Option.all_some] at h
    exact Option.filter_some_pos h.2.1.1

/-- what is left is forgotten at a line that is not indented further than it -/
theorem Left.filter_isBelow {outer seen : Option Nat} {column : Nat} (h : Left outer column seen)
    {l : Line} (hclear : l.isClear outer = true) (hl : ∀ o, column ≤ o → l.isBelow o = false) :
    seen.filter (l.isBelow ·) = outer := by
  rcases h with rfl | ⟨rfl, o, rfl, ho⟩
  · exact Placed.filter_isBelow hclear
  · rw [Option.filter_some, hl o ho]
    rfl

/-- behind the value of a key nothing further left than it is left -/
theorem Left.of_inner {outer seen : Option Nat} {l : Line} {column column' : Nat}
    (h : Left (l.inner outer) column seen) (hclear : l.isClear outer = true)
    (hc : column' ≤ column) (hl : l.isKey "sysctls" = true → column' ≤ l.lead.column) :
    Left outer column' seen := by
  rw [Line.inner] at h
  cases hkey : l.isKey "sysctls" with
  | true =>
    rw [hkey, if_pos rfl] at h
    rcases h with rfl | ⟨h, _⟩
    · exact Or.inr ⟨LegacyKey.outer_of_sysctls hclear hkey, _, rfl, hl hkey⟩
    · cases h
  | false =>
    rw [hkey, if_neg Bool.false_ne_true] at h
    exact h.mono hc

theorem isTold_iff (outer : Option Nat) (l : Line) :
    isTold ⟨outer, l⟩ = true ↔ outer.isSome = true ∧ l.isKey "string" = true :=
  Bool.and_eq_true_iff

theorem tells_line {outer : Option Nat} {l : Line} {column : Nat}
    (h : isClear ⟨outer, l⟩ = true ∧ l.isUndashed = true)
    (hl : l.isKey "sysctls" = true → column ≤ l.lead.column) : Tells outer column [⟨outer, l⟩] := by
  intro seen hseen
  refine ⟨l.inner outer, Left.of_inner (Or.inl rfl) h.1 (Nat.le_refl _) hl, fun rest => ?_⟩
  have husedFrom := LegacyKey.usedFrom_exact outer seen l h.1 h.2 (hseen _ rfl) rest
  simp only [List.mem_singleton, exists_eq_left]
  rw [isTold_iff]
  exact husedFrom

/-- the clear lines below a line -/
theorem Tells.cons {outer : Option Nat} {l l' : Line} {column column' : Nat} {ps : List Placed}
    (h : Tells (l.inner outer) column ps) (hhead : ps.head? = some ⟨l.inner outer, l'⟩)
    (hclear : ∀ p ∈ ⟨outer, l⟩ :: ps, p.isClear = true ∧ p.line.isUndashed = true)
    (hc : column' ≤ column)
    (hl : l.isKey "sysctls" = true → column' ≤ l.lead.column) :
    Tells outer column' (⟨outer, l⟩ :: ps) := by
  intro seen hseen
  rw [List.forall_mem_cons] at hclear
  have hl' : l'.isClear (l.inner outer) = true := (hclear.2 _ (List.mem_of_head? hhead)).1
  obtain ⟨seen', hleft, hrest⟩ := h (l.inner outer) (by
    rw [hhead]
    rintro _ ⟨⟩
    exact filter_isBelow hl')
  refine ⟨seen', hleft.of_inner hclear.1.1 hc hl, fun rest => ?_⟩
  have husedFrom := LegacyKey.usedFrom_exact outer seen l hclear.1.1 hclear.1.2 (hseen _ rfl)
    (ps.map (·.line.chars) ++ rest)
  rw [hrest rest, ← or_assoc] at husedFrom
  rw [List.exists_mem_cons_iff, isTold_iff]
  exact husedFrom

/-- clear lines behind others that are indented at least as far -/
theorem Tells.append {outer : Option Nat} {column column' : Nat} {p : Placed} {l : Line}
    {ps qs : List Placed} (hp : Tells outer column ps) (hq : Tells outer column' qs)
    (hps : ps.head? = some p) (hqs : qs.head? = some ⟨outer, l⟩)
    (hclear : ∀ q ∈ qs, q.isClear = true ∧ q.line.isUndashed = true)
    (hl : ∀ o, column ≤ o → l.isBelow o = false) :
    Tells outer column' (ps ++ qs) := by
  intro seen hseen
  have hne : ps ≠ [] := by
    rintro rfl
    cases hps
  rw [List.head?_append_of_ne_nil _ hne] at hseen
  have hlclear : l.isClear outer = true := (hclear _ (List.mem_of_head? hqs)).1
  obtain ⟨seen', hleft, hprest⟩ := hp seen hseen
  obtain ⟨seen'', hleft', hqrest⟩ := hq seen' (by
    rw [hqs]
    rintro _ ⟨⟩
    exact hleft.filter_isBelow hlclear hl)
  refine ⟨seen'', hleft', fun rest => ?_⟩
  rw [List.map_append, List.append_assoc, hprest, hqrest, ← or_assoc]
  simp only [List.mem_append, or_and_right, exists_or]

end Placed

/-! ### the first line of a block -/

theorem Value.head_placed (outer : Option Nat) (l : Lead) (key : Word) (value : Value) :
    ∃ body trail, (value.placed outer l key).head? = some ⟨outer, ⟨l, body, trail⟩⟩
      ∧ body.key? = some key := by
  cases value with
  | empty trail => exact ⟨_, _, rfl, rfl⟩
  | beside gap s trail => exact ⟨_, _, rfl, rfl⟩
  | under trail offset b => exact ⟨_, _, rfl, rfl⟩
  | level trail items => exact ⟨_, _, rfl, rfl⟩

theorem Entries.head_placed (outer : Option Nat) (l : Lead) (entries : Entries) :
    ∃ body trail key, (entries.placed outer l).head? = some ⟨outer, ⟨l, body, trail⟩⟩
      ∧ body.key? = some key := by
  cases entries with
  | last key value =>
    obtain ⟨body, trail, hhead, hbody⟩ := value.head_placed outer l key
    exact ⟨body, trail, key, hhead, hbody⟩
  | more key value entries =>
    obtain ⟨body, trail, hhead, hbody⟩ := value.head_placed outer l key
    refine ⟨body, trail, key, ?_, hbody⟩
    rw [Entries.placed, List.head?_append, hhead]
    rfl

mutual

theorem Block.head_placed (outer : Option Nat) (l : Lead) (b : Block) :
    ∃ line, (b.placed outer l).head? = some ⟨outer, line⟩ ∧ line.lead.indent = l.indent := by
  cases b with
  | scalar s trail => exact ⟨_, rfl, rfl⟩
  | list items => exact items.head_placed outer l
  | map entries =>
    obtain ⟨body, trail, _, hhead, _⟩ := entries.head_placed outer l
    exact ⟨_, hhead, rfl⟩

theorem Items.head_placed (outer : Option Nat) (l : Lead) (items : Items) :
    ∃ line, (items.placed outer l).head? = some ⟨outer, line⟩ ∧ line.lead.indent = l.indent := by
  cases items with
  | last item => exact item.head_placed outer l
  | more item items =>
    obtain ⟨line, hhead, hindent⟩ := item.head_placed outer l
    refine ⟨line, ?_, hindent⟩
    rw [Items.placed, List.head?_append, hhead]
    rfl

theorem Item.head_placed (outer : Option Nat) (l : Lead) (item : Item) :
    ∃ line, (item.placed outer l).head? = some ⟨outer, line⟩ ∧ line.lead.indent = l.indent := by
  cases item with
  | empty trail => exact ⟨_, rfl, rfl⟩
  | beside gap b => exact b.head_placed outer (l.dash gap)
  | under trail offset b => exact ⟨_, rfl, rfl⟩

end

/-! ### along an outline -/

theorem Line.isBelow_key (column trail : Nat) {body : Body} {key : Word} (h : body.key? = some key)
    (o : Nat) (ho : column ≤ o) : isBelow o ⟨⟨column, []⟩, body, trail⟩ = false := by
  have hitem : isItem ⟨⟨column, []⟩, body, trail⟩ = false := by
    cases body with
    | dash => cases h
    | _ => rfl
  rw [isBelow, hitem, Bool.and_false, Bool.or_false]
  exact decide_eq_false (Nat.not_lt.mpr ho)

theorem Line.isBelow_item {column : Nat} {l : Line} (h : l.lead.indent = column) (o : Nat)
    (ho : column + 1 ≤ o) : l.isBelow o = false := by
  have hlt : ¬ o < column := by omega
  have hne : ¬ o = column := by omega
  simp [isBelow, h, hlt, hne]

mutual

theorem Block.tells (outer : Option Nat) (l : Lead) (b : Block)
    (h : ∀ p ∈ b.placed outer l, p.isClear = true ∧ p.line.isUndashed = true) :
    Placed.Tells outer l.column (b.placed outer l) := by
  cases b with
  | scalar s trail => exact Placed.tells_line (h _ (List.mem_singleton_self _)) nofun
  | list items => exact (items.tells outer l h).mono (Nat.le_succ _)
  | map entries => exact entries.tells outer l h

/-- Whatever is beside or below a dash stands further right. -/
theorem Items.tells (outer : Option Nat) (l : Lead) (items : Items)
    (h : ∀ p ∈ items.placed outer l, p.isClear = true ∧ p.line.isUndashed = true) :
    Placed.Tells outer (l.column + 1) (items.placed outer l) := by
  cases items with
  | last item => exact item.tells outer l h
  | more item items =>
    rw [Items.placed, List.forall_mem_append] at h
    obtain ⟨_, hitem, _⟩ := item.head_placed outer l
    obtain ⟨line, hitems, hindent⟩ := items.head_placed outer ⟨l.column, []⟩
    -- whatever key the item leaves is further right than the next dash
    exact (item.tells outer l h.1).append (items.tells outer ⟨l.column, []⟩ h.2) hitem hitems h.2
      (Line.isBelow_item hindent)

theorem Item.tells (outer : Option Nat) (l : Lead) (item : Item)
    (h : ∀ p ∈ item.placed outer l, p.isClear = true ∧ p.line.isUndashed = true) :
    Placed.Tells outer (l.column + 1) (item.placed outer l) := by
  cases item with
  | empty trail => exact Placed.tells_line (h _ (List.mem_singleton_self _)) nofun
  | beside gap b =>
    have htells := b.tells outer (l.dash gap) h
    rw [Lead.column_dash] at htells
    exact htells.mono (by omega)
  | under trail offset b =>
    obtain ⟨line, hhead, _⟩ := b.head_placed outer ⟨l.column + 1 + offset, []⟩
    have hbelow := fun p hp => h p (List.mem_cons_of_mem _ hp)
    have htells : Placed.Tells (Line.inner outer ⟨l, .dash, trail⟩) (l.column + 1 + offset)
        (b.placed outer ⟨l.column + 1 + offset, []⟩) := b.tells outer _ hbelow
    exact htells.cons hhead h (Nat.le_add_right _ _) nofun

theorem Entries.tells (outer : Option Nat) (l : Lead) (entries : Entries)
    (h : ∀ p ∈ entries.placed outer l, p.isClear = true ∧ p.line.isUndashed = true) :
    Placed.Tells outer l.column (entries.placed outer l) := by
  cases entries with
  | last key value => exact value.tells outer l key h
  | more key value entries =>
    rw [Entries.placed, List.forall_mem_append] at h
    obtain ⟨_, _, hvalue, _⟩ := value.head_placed outer l key
    obtain ⟨body, trail, key', hentries, hbody⟩ := entries.head_placed outer ⟨l.column, []⟩
    -- a `sysctls` key may be left at the column itself, but the next key has no dash in front
    exact (value.tells outer l key h.1).append (entries.tells outer ⟨l.column, []⟩ h.2) hvalue
      hentries h.2 (Line.isBelow_key l.column trail hbody)

theorem Value.tells (outer : Option Nat) (l : Lead) (key : Word) (value : Value)
    (h : ∀ p ∈ value.placed outer l key, p.isClear = true ∧ p.line.isUndashed = true) :
    Placed.Tells outer l.column (value.placed outer l key) := by
  cases value with
  | empty trail | beside gap s trail =>
    exact Placed.tells_line (h _ (List.mem_singleton_self _)) fun _ => Nat.le_refl _
  | under trail offset b =>
    obtain ⟨line, hhead, _⟩ := b.head_placed (Line.inner outer ⟨l, .key key, trail⟩)
      ⟨l.column + 1 + offset, []⟩
    have hbelow := fun p hp => h p (List.mem_cons_of_mem _ hp)
    have hcolumn : l.column ≤ l.column + 1 + offset := by omega
    exact (b.tells _ _ hbelow).cons hhead h hcolumn fun _ => Nat.le_refl _
  | level trail items =>
    obtain ⟨line, hhead, _⟩ := items.head_placed (Line.inner outer ⟨l, .key key, trail⟩)
      ⟨l.column, []⟩
    have hbelow := fun p hp => h p (List.mem_cons_of_mem _ hp)
    exact (items.tells _ _ hbelow).cons hhead h (Nat.le_succ _) fun _ => Nat.le_refl _

end

/-! ### keys behind dashes -/

namespace Placed

open LegacyKey (Covers usedFrom)

/-- The search finds the former name in the lines if one of them holds it, and it finds nothing else
unless a line starts like it outside the values of `sysctls` keys. -/
def Finds (outer : Option Nat) (ps : List Placed) : Prop :=
  ∀ seen, Covers outer seen → ∃ seen', Covers outer seen' ∧ ∀ rest,
    ((∃ p ∈ ps, p.isTold = true) ∨ usedFrom seen' rest = true →
        usedFrom seen (ps.map (·.line.chars) ++ rest) = true) ∧
      ((∀ p ∈ ps, p.isStray = false) → usedFrom seen (ps.map (·.line.chars) ++ rest) = true →
        (∃ p ∈ ps, p.isTold = true) ∨ usedFrom seen' rest = true)

theorem finds_nil (outer : Option Nat) : Finds outer [] :=
  fun seen hseen => ⟨seen, hseen, fun _ => ⟨Or.rec nofun id, fun _ => Or.inr⟩⟩

theorem Finds.cons {outer : Option Nat} {l : Line} {ps : List Placed} (h : Finds (l.inner outer) ps)
    (hclear : l.isClear outer = true) : Finds outer (⟨outer, l⟩ :: ps) := by
  intro seen hseen
  obtain ⟨seen', hseen', hrest⟩ := h (LegacyKey.after seen l) (hseen.after hclear)
  refine ⟨seen', ?_, fun rest => ?_⟩
  · -- inside the value of a key no other one starts, so the lines below are in the same value
    rintro o rfl
    refine hseen' o (if_neg fun hkey => ?_)
    cases LegacyKey.outer_of_sysctls hclear hkey
  · obtain ⟨hfound, hsound⟩ := LegacyKey.usedFrom_covered outer seen l hclear hseen
      (ps.map (·.line.chars) ++ rest)
    rw [List.exists_mem_cons_iff, isTold_iff, or_assoc]
    refine ⟨fun h => hfound (h.imp_right (hrest rest).1), fun hstray h => ?_⟩
    rw [List.forall_mem_cons] at hstray
    refine (hsound ?_ h).imp_right ((hrest rest).2 hstray.2)
    rintro rfl
    exact Bool.or_eq_false_iff.mp hstray.1

theorem Finds.append {outer : Option Nat} {ps qs : List Placed} (hp : Finds outer ps)
    (hq : Finds outer qs) : Finds outer (ps ++ qs) := by
  intro seen hseen
  obtain ⟨seen', hseen', hprest⟩ := hp seen hseen
  obtain ⟨seen'', hseen'', hqrest⟩ := hq seen' hseen'
  refine ⟨seen'', hseen'', fun rest => ?_⟩
  simp only [List.mem_append, or_and_right, exists_or, List.map_append, List.append_assoc, or_assoc]
  refine ⟨fun h => (hprest _).1 (h.imp_right (hqrest rest).1), fun hstray h => ?_⟩
  exact ((hprest _).2 (fun p hp => hstray p (Or.inl hp)) h).imp_right
    ((hqrest rest).2 fun p hp => hstray p (Or.inr hp))

end Placed

mutual

theorem Block.finds (outer : Option Nat) (l : Lead) (b : Block)
    (h : ∀ p ∈ b.placed outer l, p.isClear = true) : Placed.Finds outer (b.placed outer l) := by
  cases b with
  | scalar s trail => exact (Placed.finds_nil _).cons (h _ (List.mem_singleton_self _))
  | list items => exact items.finds outer l h
  | map entries => exact entries.finds outer l h

theorem Items.finds (outer : Option Nat) (l : Lead) (items : Items)
    (h : ∀ p ∈ items.placed outer l, p.isClear = true) :
    Placed.Finds outer (items.placed outer l) := by
  cases items with
  | last item => exact item.finds outer l h
  | more item items =>
    rw [Items.placed, List.forall_mem_append] at h
    exact (item.finds outer l h.1).append (items.finds outer ⟨l.column, []⟩ h.2)

theorem Item.finds (outer : Option Nat) (l : Lead) (item : Item)
    (h : ∀ p ∈ item.placed outer l, p.isClear = true) :
    Placed.Finds outer (item.placed outer l) := by
  cases item with
  | empty trail => exact (Placed.finds_nil _).cons (h _ (List.mem_singleton_self _))
  | beside gap b => exact b.finds outer (l.dash gap) h
  | under trail offset b =>
    rw [Item.placed, List.forall_mem_cons] at h
    have hbelow : Placed.Finds (Line.inner outer ⟨l, .dash, trail⟩)
        (b.placed outer ⟨l.column + 1 + offset, []⟩) := b.finds outer _ h.2
    exact hbelow.cons h.1

theorem Entries.finds (outer : Option Nat) (l : Lead) (entries : Entries)
    (h : ∀ p ∈ entries.placed outer l, p.isClear = true) :
    Placed.Finds outer (entries.placed outer l) := by
  cases entries with
  | last key value => exact value.finds outer l key h
  | more key value entries =>
    rw [Entries.placed, List.forall_mem_append] at h
    exact (value.finds outer l key h.1).append (entries.finds outer ⟨l.column, []⟩ h.2)

theorem Value.finds (outer : Option Nat) (l : Lead) (key : Word) (value : Value)
    (h : ∀ p ∈ value.placed outer l key, p.isClear = true) :
    Placed.Finds outer (value.placed outer l key) := by
  cases value with
  | empty trail | beside gap s trail =>
    exact (Placed.finds_nil _).cons (h _ (List.mem_singleton_self _))
  | under trail offset b =>
    rw [Value.placed, List.forall_mem_cons] at h
    exact (b.finds _ _ h.2).cons h.1
  | level trail items =>
    rw [Value.placed, List.forall_mem_cons] at h
    exact (items.finds _ _ h.2).cons h.1

end

/-! ### outlines -/

namespace Outline

/-- the lines of the block -/
def placed (o : Outline) : List Placed := o.block.elim [] fun b => b.placed none ⟨o.indent, []⟩

/-- whether the search sees every line as what it is -/
def isClear (o : Outline) : Bool := o.placed.all Placed.isClear

/-- Whether no dash is in front of a `sysctls` key, or no line starts like the former name outside
the values of these keys. -/
def isApart (o : Outline) : Bool :=
  o.placed.all (·.line.isUndashed) || o.placed.all (!·.isStray)

theorem isTold_iff (o : Outline) : (∃ p ∈ o.placed, p.isTold = true) ↔ o.root.IsLegacy := by
  rw [placed, root]
  cases o.block with
  | none =>
    refine iff_of_false ?_ (Node.not_isLegacyIn_scalar none true "" false)
    rintro ⟨p, hp, _⟩
    cases hp
  | some b => exact b.isTold_iff none ⟨o.indent, []⟩

/-- the mark in front of a document is passed over -/
theorem usedFrom_lines (o : Outline) : LegacyKey.usedFrom none (o.lines.map Line.chars)
    = LegacyKey.usedFrom none (o.placed.map (·.line.chars)) := by
  have hblock : (o.block.elim [] fun b => b.lines ⟨o.indent, []⟩).map Line.chars
      = o.placed.map (·.line.chars) := by
    rw [placed]
    cases o.block with
    | none => rfl
    | some b =>
      show (b.lines _).map Line.chars = _
      rw [← b.map_placed none, List.map_map]
      rfl
  rw [lines, List.map_append, hblock]
  cases o.mark with
  | none => rfl
  | some trail =>
    have hmark := LegacyKey.usedFrom_exact none none ⟨⟨0, []⟩, .mark, trail⟩ rfl rfl rfl
      (o.placed.map (·.line.chars))
    exact Bool.eq_iff_iff.mpr (hmark.trans (or_iff_right fun h => Bool.false_ne_true h.1))

theorem finds (o : Outline) (hclear : ∀ p ∈ o.placed, p.isClear = true) :
    Placed.Finds none o.placed := by
  rw [placed] at hclear ⊢
  cases hb : o.block with
  | none => exact Placed.finds_nil none
  | some b =>
    rw [hb] at hclear
    exact b.finds none ⟨o.indent, []⟩ hclear

theorem isTold_of_used (o : Outline) (hclear : ∀ p ∈ o.placed, p.isClear = true)
    (hdash : ∀ p ∈ o.placed, p.line.isUndashed = true)
    (h : LegacyKey.usedFrom none (o.placed.map (·.line.chars)) = true) :
    ∃ p ∈ o.placed, p.isTold = true := by
  rw [placed] at hclear hdash h ⊢
  cases hb : o.block with
  | none =>
    rw [hb] at h
    cases h
  | some b =>
    rw [hb] at hclear hdash h
    have htells := b.tells none ⟨o.indent, []⟩ fun p hp => ⟨hclear p hp, hdash p hp⟩
    obtain ⟨seen', _, hrest⟩ := htells none fun _ _ => rfl
    rw [← List.append_nil (List.map _ _)] at h
    exact ((hrest []).mp h).resolve_right Bool.false_ne_true

end Outline

end Yaml

/-- **The former name is found where it is used.**  In a clear text in block style no use is missed,
and nothing else is found, unless a `sysctls` key is behind a dash and a line outside the values of
these keys starts like the former name. -/
theorem usesLegacyKey_iff (o : Outline) (text : String) (h : Written o.lines text.toList)
    (hclear : o.isClear = true) : Yaml.document text = .ok { root := o.root } ∧
      (o.root.IsLegacy → usesLegacyKey text = true) ∧
      (o.isApart = true → (usesLegacyKey text = true ↔ o.root.IsLegacy)) := by
  rw [Outline.isClear, List.all_eq_true] at hclear
  obtain ⟨seen', _, hfinds⟩ := o.finds hclear none nofun
  obtain ⟨hfound, hsound⟩ := hfinds []
  rw [List.append_nil] at hfound hsound
  rw [usesLegacyKey, LegacyKey.usedFrom_written h, o.usedFrom_lines, ← o.isTold_iff]
  refine ⟨o.document_written text h, fun htold => hfound (Or.inl htold), fun hapart => ?_⟩
  refine ⟨fun hused => ?_, fun htold => hfound (Or.inl htold)⟩
  rw [Outline.isApart, Bool.or_eq_true, List.all_eq_true, List.all_eq_true] at hapart
  rcases hapart with hdash | hstray
  · exact o.isTold_of_used hclear hdash hused
  · have hnone : ∀ p ∈ o.placed, p.isStray = false := fun p hp => by
      simpa using hstray p hp
    exact (hsound hnone hused).resolve_right Bool.false_ne_true

/-! ### two texts

The kernel parameters of a node as its last key, with their dashes at the column of the key, and as
its first key, beside the dash of the node. -/

namespace LegacyKey.Sample

def wordOf (name : String) (h : isPlain [':'] name.toList = true)
    (hshort : (name.toList.map Char.utf8Size).sum ≤ 1024) : Word := ⟨name.toList, h, hshort⟩

def nodes : Word := wordOf "nodes" (by decide) (by decide)
def name : Word := wordOf "name" (by decide) (by decide)
def sysctls : Word := wordOf "sysctls" (by decide) (by decide)
def sysctl : Word := wordOf "sysctl" (by decide) (by decide)
def string : Word := wordOf "string" (by decide) (by decide)

def parameter : Scalar := .plain "net.ipv4.ip_forward=1".toList (by decide)
def router : Scalar := .plain "R1".toList (by decide)
def unrelated : Scalar := .plain "unrelated".toList (by decide)

/-- a list of one mapping with one entry -/
def single (key : Word) (s : Scalar) : Items :=
  .last (.beside 0 (.map (.last key (.beside 0 s 0))))

def topologyOf (node : Entries) : Outline where
  block := some (.map (.last nodes (.under 0 1 (.list (.last (.beside 0 (.map node)))))))

def lastKey : Outline :=
  topologyOf (.more name (.beside 0 router 0) (.last sysctls (.level 0 (single string parameter))))

def firstKey : Outline :=
  topologyOf (.more sysctls (.under 0 1 (.list (single sysctl parameter)))
    (.more string (.beside 0 unrelated 0) (.last name (.beside 0 router 0))))

def lastKeyText : String :=
  "nodes:\n  - name: R1\n    sysctls:\n    - string: net.ipv4.ip_forward=1\n"

def firstKeyText : String :=
  "nodes:\n  - sysctls:\n      - sysctl: net.ipv4.ip_forward=1\n    string: unrelated\n    name: R1\n"

theorem written_feeds (ls : List Line) : Written ls (ls.flatMap fun l => l.chars ++ ['\n']) := by
  induction ls with
  | nil => exact .done 0
  | cons l ls ih =>
    rw [List.flatMap_cons, List.append_assoc]
    exact .line l .feed ih

theorem lastKey_written : Written lastKey.lines lastKeyText.toList := by
  have htext : lastKeyText.toList = lastKey.lines.flatMap fun l => l.chars ++ ['\n'] := by
    decide +kernel
  exact htext ▸ written_feeds lastKey.lines

theorem firstKey_written : Written firstKey.lines firstKeyText.toList := by
  have htext : firstKeyText.toList = firstKey.lines.flatMap fun l => l.chars ++ ['\n'] := by
    decide +kernel
  exact htext ▸ written_feeds firstKey.lines

end LegacyKey.Sample

open LegacyKey

theorem usesLegacyKey_lastKey :
    Written Sample.lastKey.lines Sample.lastKeyText.toList ∧ Sample.lastKey.isClear = true ∧
      Sample.lastKey.isApart = true ∧ Sample.lastKey.root.IsLegacy ∧
      usesLegacyKey Sample.lastKeyText = true := by
  have hclear : Sample.lastKey.isClear = true := by decide +kernel
  have hapart : Sample.lastKey.isApart = true := by decide +kernel
  have hlegacy : Sample.lastKey.root.IsLegacy := by
    rw [← Outline.isTold_iff]
    decide +kernel
  obtain ⟨_, hfound, hiff⟩ := usesLegacyKey_iff Sample.lastKey Sample.lastKeyText
    Sample.lastKey_written hclear
  exact ⟨Sample.lastKey_written, hclear, hapart, (hiff hapart).mp (hfound hlegacy), hfound hlegacy⟩

/-- A node that starts with its kernel parameters: the search takes its other keys for theirs. -/
theorem legacy_key_behind_dash :
    (Topology.read Sample.firstKeyText).toBool = true ∧
      Yaml.document Sample.firstKeyText = .ok { root := Sample.firstKey.root } ∧
      Sample.firstKey.isClear = true ∧ ¬ Sample.firstKey.root.IsLegacy ∧
      usesLegacyKey Sample.firstKeyText = true := by
  refine ⟨by decide +kernel, Sample.firstKey.document_written _ Sample.firstKey_written,
    by decide +kernel, ?_, by decide +kernel⟩
  rw [← Outline.isTold_iff]
  decide +kernel

end Netlab
