import Netlab.Proofs.Yaml.Nest

/-!
# The tokens of blocks

The lines of a block add its tokens to those before, between the marks of its ends: `Block.adds`.
-/

namespace Netlab.Yaml

/-! ## the tokens of blocks -/

mutual

def Block.tokens : Block → List Token
  | .scalar s _ => [s.token]
  | .list items => .openBlockList :: (items.tokens ++ [.closeBlock])
  | .map entries => .openBlockMap :: (entries.tokens ++ [.closeBlock])

def Items.tokens : Items → List Token
  | .last item => .entry :: item.tokens
  | .more item items => .entry :: (item.tokens ++ items.tokens)

def Item.tokens : Item → List Token
  | .empty _ => []
  | .beside _ b => b.tokens
  | .under _ _ b => b.tokens

def Entries.tokens : Entries → List Token
  | .last key value => .key :: key.token :: .value :: value.tokens
  | .more key value entries => .key :: key.token :: .value :: (value.tokens ++ entries.tokens)

def Value.tokens : Value → List Token
  | .empty _ => []
  | .beside _ s _ => [s.token]
  | .under _ _ b => b.tokens
  | .level _ items => items.tokens

end

/-! ## from lines to tokens -/

/-- The lines add the tokens to those of the nest `o` when the blocks from a bound on are closed,
and fit whatever does not belong to them comes below. -/
structure Adds (n o : Nest) (bound : Nat) (ls : List Line) (ts : List Token) : Prop where
  closes : (n.lines ls).closeFrom bound = o.push ts
  fits : ∀ rest, o.Covers rest → Nest.FitAll rest n ls

namespace Adds

theorem cons {n o : Nest} {bound : Nat} {l : Line} {ls : List Line} (ts : List Token)
    {ts' : List Token} (hfits : ∀ ls, n.Fits l ls) (h : Adds (n.line l) (o.push ts) bound ls ts') :
    Adds n o bound (l :: ls) (ts ++ ts') := by
  refine ⟨?_, fun rest hrest => ⟨hfits _, h.fits rest hrest⟩⟩
  rw [← Nest.push_push, ← h.closes]
  rfl

theorem append {n o : Nest} {bound : Nat} {ls ls' : List Line} {ts ts' : List Token}
    (h : Adds n o bound ls ts) (hcovers : ∀ rest, o.Covers (ls' ++ rest))
    (h' : Adds (n.lines ls) (o.push ts) bound ls' ts') :
    Adds n o bound (ls ++ ls') (ts ++ ts') := by
  refine ⟨?_, fun rest hrest =>
    (Nest.fitAll_append ..).mpr ⟨h.fits _ (hcovers rest), h'.fits _ hrest⟩⟩
  rw [Nest.lines_append, h'.closes, Nest.push_push]

end Adds

/-! ### first lines -/

mutual

theorem Block.lines_head (b : Block) (l : Lead) :
    ∃ m ms, b.lines l = m :: ms ∧ m.lead.indent = l.indent := by
  cases b with
  | scalar s trail => exact ⟨_, _, rfl, rfl⟩
  | list items => exact items.lines_head l
  | map entries => exact entries.lines_head l

theorem Items.lines_head (items : Items) (l : Lead) :
    ∃ m ms, items.lines l = m :: ms ∧ m.lead.indent = l.indent := by
  cases items with
  | last item => exact item.lines_head l
  | more item items =>
    obtain ⟨m, ms, hms, hm⟩ := item.lines_head l
    exact ⟨m, _, by rw [Items.lines, hms, List.cons_append], hm⟩

theorem Item.lines_head (item : Item) (l : Lead) :
    ∃ m ms, item.lines l = m :: ms ∧ m.lead.indent = l.indent := by
  cases item with
  | empty trail => exact ⟨_, _, rfl, rfl⟩
  | beside gap b => exact b.lines_head (l.dash gap)
  | under trail offset b => exact ⟨_, _, rfl, rfl⟩

theorem Entries.lines_head (entries : Entries) (l : Lead) :
    ∃ m ms, entries.lines l = m :: ms ∧ m.lead.indent = l.indent := by
  have hvalue (key : Word) (value : Value) :
      ∃ m ms, value.lines l key = m :: ms ∧ m.lead.indent = l.indent := by
    cases value <;> exact ⟨_, _, rfl, rfl⟩
  cases entries with
  | last key value => exact hvalue key value
  | more key value entries =>
    obtain ⟨m, ms, hms, hm⟩ := hvalue key value
    exact ⟨m, _, by rw [Entries.lines, hms, List.cons_append], hm⟩

end

/-- lines that start where a block is open belong to it -/
theorem Nest.covers_of_head {n : Nest} {column : Nat} (t : Token) {ls : List Line}
    (h : ∃ m ms, ls = m :: ms ∧ m.lead.indent = column) (rest : List Line) :
    (n.opened column t).Covers (ls ++ rest) := by
  obtain ⟨m, ms, rfl, hm⟩ := h
  rintro m' hm'
  obtain rfl := Option.some.inj hm'
  exact ⟨column, n.head_opened column t, Nat.le_of_eq hm⟩

mutual

theorem Block.adds (b : Block) (l : Lead) (n : Nest)
    (h : ∀ i ∈ (n.lead l).indents.head?, i < l.column) (bound : Nat)
    (hbound : ∀ i ∈ (n.lead l).indents.head?, i < bound) (hle : bound ≤ l.column) :
    Adds n (n.lead l) bound (b.lines l) b.tokens := by
  -- a list or map is open at its column, and closing from the bound on closes it
  have hblock (t : Token) (ls : List Line) (ts : List Token)
      (hadds : Adds n ((n.lead l).opened l.column t) (l.column + 1) ls ts) :
      Adds n (n.lead l) bound ls (t :: (ts ++ [.closeBlock])) := by
    refine ⟨?_, fun rest hrest => hadds.fits rest fun m hm => ?_⟩
    · rw [← Nest.closeFrom_closeFrom bound (Nat.le_succ_of_le hle), hadds.closes,
        Nest.closeFrom_opened_of_head _ _ _ _ h bound hbound hle]
    · obtain ⟨i, hi, hmi⟩ := hrest m hm
      exact ⟨l.column, Nest.head_opened .., Nat.le_trans hmi (Nat.le_of_lt (h i hi))⟩
  cases b with
  | scalar s trail =>
    have hclosed : (n.lead l).closeFrom (l.column + 1) = n.lead l :=
      Nest.closeFrom_of_head _ _ fun i hi => Nat.lt_succ_of_lt (h i hi)
    have hline : n.line ⟨l, .scalar s, trail⟩ = (n.lead l).push [s.token] := by
      rw [Nest.line, Nest.body, hclosed]
    refine ⟨?_, fun rest hrest => ⟨⟨?_, ?_⟩, trivial⟩⟩
    · show (n.line ⟨l, .scalar s, trail⟩).closeFrom bound = _
      rw [hline]
      exact Nest.closeFrom_of_head bound ((n.lead l).push [s.token]) hbound
    · rw [Nest.body, hclosed]
      exact h
    · rw [Nest.body, hclosed]
      exact hrest
  | list items => exact hblock .openBlockList _ _ (items.adds l n)
  | map entries => exact hblock .openBlockMap _ _ (entries.adds l n)

theorem Items.adds (items : Items) (l : Lead) (n : Nest) :
    Adds n ((n.lead l).opened l.column .openBlockList) (l.column + 1) (items.lines l)
      items.tokens := by
  cases items with
  | last item => exact item.adds l n
  | more item items =>
    have hitem := item.adds l n
    refine hitem.append (Nest.covers_of_head _ (items.lines_head ⟨l.column, []⟩)) ?_
    have hitems := items.adds ⟨l.column, []⟩ (n.lines (item.lines l))
    rwa [Lead.column_indent, Nest.lead_indent, Nest.opened, hitem.closes,
      Nest.openAt_opened] at hitems

theorem Item.adds (item : Item) (l : Lead) (n : Nest) :
    Adds n ((n.lead l).opened l.column .openBlockList) (l.column + 1) (item.lines l)
      (.entry :: item.tokens) := by
  have hhead : ∀ i ∈ (((n.lead l).opened l.column .openBlockList).push [.entry]).indents.head?,
      i < l.column + 1 := by
    intro i hi
    rw [Nest.push_indents, Nest.head_opened] at hi
    obtain rfl := Option.some.inj hi
    exact Nat.lt_succ_self _
  cases item with
  | empty trail => exact ⟨Nest.closeFrom_opened .., fun _ _ => ⟨trivial, trivial⟩⟩
  | beside gap b =>
    have hb := b.adds (l.dash gap) n (by
      rw [n.lead_dash l gap, Lead.column_dash]
      exact fun i hi => Nat.lt_of_lt_of_le (hhead i hi) (by omega)) (l.column + 1) (by
      rwa [n.lead_dash l gap]) (by
      rw [Lead.column_dash]
      omega)
    rw [n.lead_dash l gap] at hb
    refine ⟨?_, hb.fits⟩
    rw [Item.lines, hb.closes, Nest.push_push]
    rfl
  | under trail offset b =>
    have hb := b.adds ⟨l.column + 1 + offset, []⟩ (n.line ⟨l, .dash, trail⟩)
      (fun i hi => Nat.lt_of_lt_of_le (hhead i hi) (Nat.le_add_right _ _)) (l.column + 1) hhead
      (Nat.le_add_right _ _)
    exact Adds.cons [.entry] (fun _ => trivial) hb

theorem Entries.adds (entries : Entries) (l : Lead) (n : Nest) :
    Adds n ((n.lead l).opened l.column .openBlockMap) (l.column + 1) (entries.lines l)
      entries.tokens := by
  cases entries with
  | last key value => exact value.adds key l n
  | more key value entries =>
    have hvalue := value.adds key l n
    refine hvalue.append (Nest.covers_of_head _ (entries.lines_head ⟨l.column, []⟩)) ?_
    have hentries := entries.adds ⟨l.column, []⟩ (n.lines (value.lines l key))
    rwa [Lead.column_indent, Nest.lead_indent, Nest.opened, hvalue.closes,
      Nest.openAt_opened] at hentries

theorem Value.adds (value : Value) (key : Word) (l : Lead) (n : Nest) :
    Adds n ((n.lead l).opened l.column .openBlockMap) (l.column + 1) (value.lines l key)
      (.key :: key.token :: .value :: value.tokens) := by
  have hhead : ∀ i ∈ ((n.lead l).key l.column key).indents.head?, i < l.column + 1 := by
    intro i hi
    rw [Nest.key, Nest.push_indents, Nest.head_opened] at hi
    obtain rfl := Option.some.inj hi
    exact Nat.lt_succ_self _
  cases value with
  | empty trail => exact ⟨Nest.closeFrom_opened .., fun _ _ => ⟨trivial, trivial⟩⟩
  | beside gap s trail =>
    refine ⟨?_, fun rest hrest => ⟨hrest, trivial⟩⟩
    show (((n.lead l).key l.column key).push [s.token]).closeFrom _ = _
    rw [Nest.key, Nest.push_push, Nest.closeFrom_opened]
    rfl
  | under trail offset b =>
    have hb := b.adds ⟨l.column + 1 + offset, []⟩ (n.line ⟨l, .key key, trail⟩)
      (fun i hi => Nat.lt_of_lt_of_le (hhead i hi) (Nat.le_add_right _ _)) (l.column + 1) hhead
      (Nat.le_add_right _ _)
    exact Adds.cons [.key, key.token, .value] (fun _ => trivial) hb
  | level trail items =>
    have hitems := items.adds ⟨l.column, []⟩ (n.line ⟨l, .key key, trail⟩)
    have hopened : (n.line ⟨l, .key key, trail⟩).opened l.column .openBlockList
        = n.line ⟨l, .key key, trail⟩ := Nest.opened_opened ..
    rw [Lead.column_indent, Nest.lead_indent, hopened] at hitems
    exact Adds.cons [.key, key.token, .value] (fun _ => trivial) hitems

end

end Netlab.Yaml
