import Netlab.Proofs.Yaml.Gaps

/-!
# The blocks that lines open and close

A `Nest` is what the reader of tokens has found so far with the indentations of the blocks that are
open, and `Nest.line` is what a line adds.  The reader can be followed this way as long as no scalar
could be taken for a key or go on in the next line (`Nest.Fits`).
-/

namespace Netlab.Yaml

/-! ## open blocks -/

structure Nest where
  tokens : List Token := []
  /-- of the open blocks, the innermost first -/
  indents : List Nat := []

namespace Nest

/-- close the blocks that are indented by `bound` or more -/
def closeFrom (bound : Nat) (n : Nest) : Nest :=
  let closed := n.indents.takeWhile (bound ≤ ·)
  ⟨n.tokens ++ closed.map fun _ => .closeBlock, n.indents.drop closed.length⟩

def push (n : Nest) (ts : List Token) : Nest := { n with tokens := n.tokens ++ ts }

/-- open a block at a column unless one is open there -/
def openAt (column : Nat) (t : Token) (n : Nest) : Nest :=
  if n.indents.head?.any (column ≤ ·) then n else ⟨n.tokens ++ [t], column :: n.indents⟩

/-- a block is open at a column, in place of all that are indented further -/
def opened (column : Nat) (t : Token) (n : Nest) : Nest :=
  (n.closeFrom (column + 1)).openAt column t

/-- a dash at a column -/
def dash (column : Nat) (n : Nest) : Nest := (n.opened column .openBlockList).push [.entry]

def dashes (column : Nat) : List Nat → Nest → Nest
  | [], n => n
  | gap :: gaps, n => dashes (column + gap + 2) gaps (n.dash column)

/-- a key at a column, with its colon -/
def key (column : Nat) (k : Word) (n : Nest) : Nest :=
  (n.opened column .openBlockMap).push [.key, k.token, .value]

def body (column : Nat) (n : Nest) : Body → Nest
  | .mark => ((n.closeFrom (column + 1)).closeFrom 0).push [.documentStart]
  | .dash => n.dash column
  | .scalar s => (n.closeFrom (column + 1)).push [s.token]
  | .key k => n.key column k
  | .pair k _ s => (n.key column k).push [s.token]

/-- the dashes in front of the body of a line -/
def lead (n : Nest) (l : Lead) : Nest := n.dashes l.indent l.dashes

def line (n : Nest) (l : Line) : Nest := (n.lead l.lead).body l.lead.column l.body

def lines (n : Nest) (ls : List Line) : Nest := ls.foldl line n

/-- a line below is not indented further than the innermost block -/
def Covers (n : Nest) (ls : List Line) : Prop :=
  ∀ l ∈ ls.head?, ∃ i ∈ n.indents.head?, l.lead.indent ≤ i

/-- No scalar could be taken for a key or would go on in the lines below, and a mark is at the start
of its line. -/
def FitsAt (column : Nat) (n : Nest) (b : Body) (ls : List Line) : Prop :=
  match b with
  | .mark => column = 0
  | .scalar _ => (∀ i ∈ (n.body column b).indents.head?, i < column) ∧ (n.body column b).Covers ls
  | .pair _ _ _ => (n.body column b).Covers ls
  | _ => True

def Fits (n : Nest) (l : Line) (ls : List Line) : Prop :=
  FitsAt l.lead.column (n.lead l.lead) l.body ls

/-- each of the lines fits where it stands, with the lines `rest` behind all of them -/
def FitAll (rest : List Line) : Nest → List Line → Prop
  | _, [] => True
  | n, l :: ls => n.Fits l (ls ++ rest) ∧ FitAll rest (n.line l) ls

theorem fitAll_append (rest ls ls' : List Line) (n : Nest) : FitAll rest n (ls ++ ls') ↔
    FitAll (ls' ++ rest) n ls ∧ FitAll rest (n.lines ls) ls' := by
  induction ls generalizing n with
  | nil => exact (and_iff_right trivial).symm
  | cons l ls ih =>
    rw [List.cons_append, FitAll, FitAll, List.append_assoc, ih, and_assoc]
    rfl

theorem closeFrom_nil (bound : Nat) (ts : List Token) : closeFrom bound ⟨ts, []⟩ = ⟨ts, []⟩ := by
  simp [closeFrom]

theorem closeFrom_cons (bound : Nat) (ts : List Token) (i : Nat) (is : List Nat) :
    closeFrom bound ⟨ts, i :: is⟩
      = if bound ≤ i then closeFrom bound ⟨ts ++ [.closeBlock], is⟩ else ⟨ts, i :: is⟩ := by
  by_cases hi : bound ≤ i <;> simp [closeFrom, hi]

/-- blocks that are closed up to a bound leave none from there on open -/
theorem head_closeFrom (bound : Nat) (n : Nest) :
    ∀ i ∈ (n.closeFrom bound).indents.head?, i < bound := by
  obtain ⟨ts, is⟩ := n
  induction is generalizing ts with
  | nil =>
    rw [closeFrom_nil]
    nofun
  | cons i is ih =>
    rw [closeFrom_cons]
    split
    · exact ih _
    · next hi =>
      rintro _ ⟨⟩
      exact Nat.lt_of_not_le hi

theorem closeFrom_of_head (bound : Nat) (n : Nest) (h : ∀ i ∈ n.indents.head?, i < bound) :
    n.closeFrom bound = n := by
  obtain ⟨ts, _ | ⟨i, is⟩⟩ := n
  · exact closeFrom_nil bound ts
  · rw [closeFrom_cons, if_neg (Nat.not_le_of_lt (h i rfl))]

theorem closeFrom_closeFrom (bound : Nat) {bound' : Nat} (h : bound ≤ bound') (n : Nest) :
    (n.closeFrom bound').closeFrom bound = n.closeFrom bound := by
  obtain ⟨ts, is⟩ := n
  induction is generalizing ts with
  | nil => rw [closeFrom_nil]
  | cons i is ih =>
    rw [closeFrom_cons bound']
    split
    · next hi => rw [ih, closeFrom_cons bound, if_pos (Nat.le_trans h hi)]
    · rfl

theorem head_openAt (column : Nat) (t : Token) (n : Nest) (h : ∀ i ∈ n.indents.head?, i ≤ column) :
    (n.openAt column t).indents.head? = some column := by
  rw [openAt]
  split
  · next hopen =>
    obtain ⟨i, hi, hle⟩ := Option.any_eq_true .. |>.mp hopen
    have hle : column ≤ i := by simpa using hle
    rw [hi, Nat.le_antisymm (h i hi) hle]
  · rfl

theorem head_opened (column : Nat) (t : Token) (n : Nest) :
    (n.opened column t).indents.head? = some column :=
  head_openAt column t _ fun i hi => Nat.le_of_lt_succ (n.head_closeFrom (column + 1) i hi)

/-! ### several lines -/

@[simp] theorem push_indents (n : Nest) (ts : List Token) : (n.push ts).indents = n.indents := rfl

@[simp] theorem push_push (n : Nest) (ts ts' : List Token) :
    (n.push ts).push ts' = n.push (ts ++ ts') := by
  rw [push, push, push, List.append_assoc]

theorem lines_append (n : Nest) (ls ls' : List Line) :
    n.lines (ls ++ ls') = (n.lines ls).lines ls' := List.foldl_append

theorem dashes_append (n : Nest) (column gap : Nat) (gaps : List Nat) :
    n.dashes column (gaps ++ [gap])
      = (n.dashes column gaps).dash (column + (gaps.map (· + 2)).sum) := by
  induction gaps generalizing n column with
  | nil => rfl
  | cons g gaps ih =>
    rw [List.cons_append, dashes, dashes, ih, List.map_cons, List.sum_cons]
    congr 1
    omega

@[simp] theorem lead_indent (n : Nest) (column : Nat) : n.lead ⟨column, []⟩ = n := rfl

theorem lead_dash (n : Nest) (l : Lead) (gap : Nat) :
    n.lead (l.dash gap) = ((n.lead l).opened l.column .openBlockList).push [.entry] :=
  n.dashes_append l.indent gap l.dashes

theorem closeFrom_opened (column : Nat) (t : Token) (n : Nest) (ts : List Token) :
    ((n.opened column t).push ts).closeFrom (column + 1) = (n.opened column t).push ts := by
  refine closeFrom_of_head _ _ fun i hi => ?_
  rw [push_indents, head_opened] at hi
  obtain rfl := Option.some.inj hi
  exact Nat.lt_succ_self _

/-- a block that is open stays the one that is -/
theorem openAt_opened (column : Nat) (t t' : Token) (n : Nest) (ts : List Token) :
    ((n.opened column t).push ts).openAt column t' = (n.opened column t).push ts := by
  rw [openAt, push_indents, head_opened, if_pos]
  simp

theorem opened_opened (column : Nat) (t t' : Token) (n : Nest) (ts : List Token) :
    ((n.opened column t).push ts).opened column t' = (n.opened column t).push ts := by
  rw [opened, closeFrom_opened, openAt_opened]

/-- a new block goes inside the one that is open and is indented less -/
theorem opened_of_head (column : Nat) (t : Token) (n : Nest)
    (h : ∀ i ∈ n.indents.head?, i < column) :
    n.opened column t = ⟨n.tokens ++ [t], column :: n.indents⟩ := by
  rw [opened, closeFrom_of_head _ _ fun i hi => Nat.lt_succ_of_lt (h i hi), openAt, if_neg]
  intro hopen
  obtain ⟨i, hi, hle⟩ := Option.any_eq_true .. |>.mp hopen
  have hlt := h i hi
  have hle : column ≤ i := by simpa using hle
  omega

theorem closeFrom_opened_of_head (column : Nat) (t : Token) (n : Nest) (ts : List Token)
    (h : ∀ i ∈ n.indents.head?, i < column) (bound : Nat)
    (hbound : ∀ i ∈ n.indents.head?, i < bound) (hle : bound ≤ column) :
    ((n.opened column t).push ts).closeFrom bound = n.push (t :: (ts ++ [.closeBlock])) := by
  rw [n.opened_of_head column t h, push, closeFrom_cons, if_pos hle]
  have hclosed := closeFrom_of_head bound ⟨n.tokens ++ [t] ++ ts ++ [.closeBlock], n.indents⟩ hbound
  rw [hclosed, push]
  simp

end Nest

end Netlab.Yaml
