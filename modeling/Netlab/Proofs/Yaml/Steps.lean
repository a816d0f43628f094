import Mathlib.Data.List.TakeWhile
import Netlab.Proofs.Yaml.Nest

/-!
# Steps of the reader of tokens

The reader is where a nest is (`Layout.Holds`), goes over a gap and reads the token behind it: a
dash, a scalar, a key or its colon.  That a key was one shows at its colon only, so its tokens are
then put in front of those of its name (`Layout.Keyed`).
-/

namespace Netlab.Yaml

open Layout (skipGapFrom)

/-! ## states of the reader -/

namespace Layout

/-- The reader has found what the nest says, is outside brackets and in front of the characters, and
needs no colon. -/
structure Holds (s : Layout) (n : Nest) (allowed : Bool) (p : Pos) (cs : List Char) : Prop where
  tokens : s.tokens.toList = n.tokens
  indents : s.indents = n.indents
  keyAllowed : s.keyAllowed = allowed
  cursor : s.cursor = ⟨p, cs⟩
  outerKeys : s.outerKeys = []
  key : ∀ k ∈ s.key, k.required = false

/-- in some steps, no more than characters are taken, the reader gets from one state to another -/
def Reaches (s s' : Layout) : Prop :=
  ∃ steps, steps + s'.cursor.rest.length ≤ s.cursor.rest.length ∧
    ∀ m, readTokens (m + steps) s = readTokens m s'

theorem Reaches.refl (s : Layout) : Reaches s s := ⟨0, by omega, fun _ => rfl⟩

theorem Reaches.trans {s t u : Layout} (h : Reaches s t) (h' : Reaches t u) : Reaches s u := by
  obtain ⟨i, hi, hs⟩ := h
  obtain ⟨j, hj, ht⟩ := h'
  refine ⟨j + i, by omega, fun m => ?_⟩
  rw [← Nat.add_assoc, hs, ht]

theorem Holds.closeTo {s : Layout} {n : Nest} {allowed : Bool} {p : Pos} {cs : List Char}
    (h : s.Holds n allowed p cs) (column : Nat) :
    (s.closeTo column).Holds (n.closeFrom (column + 1)) allowed p cs := by
  have hflow : s.inFlow = false := by
    rw [inFlow, h.outerKeys]
    rfl
  rw [Layout.closeTo, if_neg (by rw [hflow]; exact Bool.false_ne_true)]
  have hclosed : s.indents.takeWhile (column < ·) = n.indents.takeWhile (column + 1 ≤ ·) := by
    rw [h.indents]
    rfl
  refine ⟨?_, ?_, h.keyAllowed, h.cursor, h.outerKeys, h.key⟩
  · show (s.tokens ++ (s.indents.takeWhile (column < ·)).map fun _ => Token.closeBlock).toList = _
    rw [Array.toList_appendList, h.tokens, hclosed]
    rfl
  · show s.indents.drop _ = _
    rw [hclosed, h.indents]
    rfl

/-- One step of the reader: over the gap, and with the blocks closed that end there, it reads the
token that it finds. -/
theorem Holds.step {s : Layout} {n : Nest} {allowed : Bool} {p : Pos} {cs : List Char}
    (h : s.Holds n allowed p cs) {allowed' : Bool} {q : Pos} {ds : List Char}
    (hgap : skipGapFrom false allowed false p cs = (allowed', ⟨q, ds⟩)) :
    ∃ s' : Layout, s'.Holds (n.closeFrom (q.column + 1)) allowed' q ds ∧
      (ds = [] → ∀ m, readTokens (m + 1) s = return (← s'.closeAll.dropKey).tokens) ∧
      ∀ c cs, ds = c :: cs → ∀ m, readTokens (m + 1) s = s'.readToken c cs >>= readTokens m := by
  have hflow : s.inFlow = false := by
    rw [inFlow, h.outerKeys]
    rfl
  have hskip : s.skipGap = { s with keyAllowed := allowed', cursor := ⟨q, ds⟩ } := by
    rw [skipGap, hflow, h.keyAllowed, h.cursor, hgap]
  obtain ⟨key, hkey, hkeep⟩ :
      ∃ key, (∀ k ∈ key, k.required = false) ∧ keepKey q s.key = .ok key := by
    cases hk : s.key with
    | none => exact ⟨none, nofun, rfl⟩
    | some k =>
      have hrequired : k.required = false := h.key k hk
      rw [keepKey, hrequired]
      split
      · exact ⟨none, nofun, rfl⟩
      · refine ⟨some k, ?_, rfl⟩
        rintro k' hk'
        obtain rfl := Option.mem_some.mp hk'
        exact hrequired
  have hdrop : s.skipGap.dropStaleKeys = .ok { s.skipGap with key } := by
    rw [hskip, dropStaleKeys]
    simp only [hkeep, h.outerKeys]
    rfl
  have hholds : Holds { s.skipGap with key } n allowed' q ds := by
    rw [hskip]
    exact ⟨h.tokens, h.indents, rfl, rfl, h.outerKeys, hkey⟩
  have hclosed := hholds.closeTo q.column
  have hcolumn : Layout.column { s.skipGap with key } = q.column := by
    rw [hskip]
    rfl
  refine ⟨_, hclosed, fun hds m => ?_, fun c cs hds m => ?_⟩ <;>
  · rw [readTokens, hdrop]
    simp only [bind, Except.bind]
    rw [hcolumn, hclosed.cursor, hds]

/-! ## tokens -/

theorem toList_insertIdxIfInBounds (ts : Array Token) (front behind : List Token) (t : Token)
    (h : ts.toList = front ++ behind) :
    (ts.insertIdxIfInBounds front.length t).toList = front ++ t :: behind := by
  have hsize : front.length ≤ ts.size := by
    rw [← Array.length_toList, h, List.length_append]
    omega
  have hinsert : (front ++ behind).insertIdx front.length t = front ++ t :: behind := by
    clear h hsize
    induction front with
    | nil => rfl
    | cons u front ih => rw [List.cons_append, List.length_cons, List.insertIdx_succ_cons, ih]; rfl
  rw [Array.insertIdxIfInBounds, dif_pos hsize, Array.toList_insertIdx, h, hinsert]

theorem Holds.inFlow {s : Layout} {n : Nest} {allowed : Bool} {p : Pos} {cs : List Char}
    (h : s.Holds n allowed p cs) : s.inFlow = false := by
  rw [Layout.inFlow, h.outerKeys]
  rfl

theorem Holds.dropKey {s : Layout} {n : Nest} {allowed : Bool} {p : Pos} {cs : List Char}
    (h : s.Holds n allowed p cs) : s.dropKey = .ok { s with key := none } := by
  have hkey : s.key.any (·.required) = false := by
    cases hk : s.key with
    | none => rfl
    | some k => exact h.key k hk
  rw [Layout.dropKey, hkey, if_neg Bool.false_ne_true]

theorem Holds.saveKey {s : Layout} {n : Nest} {p : Pos} {cs : List Char}
    (h : s.Holds n true p cs) : s.saveKey = .ok { s with
      key := some ⟨decide (n.indents.head? = some p.column), n.tokens.length, p⟩ } := by
  have hsize : s.tokens.size = n.tokens.length := by
    rw [← h.tokens, Array.length_toList]
  rw [Layout.saveKey, if_pos h.keyAllowed, h.dropKey, h.inFlow, Layout.column, h.cursor, h.indents,
    hsize]
  simp only [bind, Except.bind, pure, Except.pure, Cursor.column]
  rfl

theorem Holds.openBlock {s : Layout} {n : Nest} {allowed : Bool} {p : Pos} {cs : List Char}
    (h : s.Holds n allowed p cs) (column : Nat) (t : Token) :
    (s.openBlock column s.tokens.size t).Holds (n.openAt column t) allowed p cs := by
  have hsize : s.tokens.size = n.tokens.length := by
    rw [← h.tokens, Array.length_toList]
  rw [Layout.openBlock, Nest.openAt, h.inFlow, Bool.false_or, h.indents]
  split
  · exact h
  · refine ⟨?_, rfl, h.keyAllowed, h.cursor, h.outerKeys, h.key⟩
    rw [hsize, toList_insertIdxIfInBounds _ n.tokens [] t (by rw [h.tokens, List.append_nil])]

theorem Holds.take {s : Layout} {n : Nest} {allowed : Bool} {p : Pos} {c : Char} {cs : List Char}
    (h : s.Holds n allowed p (c :: cs)) (t : Token) :
    (s.take 1 t).Holds (n.push [t]) allowed (p.skip 1) cs := by
  refine ⟨?_, h.indents, h.keyAllowed, ?_, h.outerKeys, h.key⟩
  · show (s.tokens.push t).toList = n.tokens ++ [t]
    rw [Array.toList_push, h.tokens]
  · show s.cursor.skip 1 = _
    rw [h.cursor]
    rfl

/-- a dash with a gap behind it -/
theorem Holds.entry {s : Layout} {n : Nest} {p : Pos} {cs : List Char}
    (h : s.Holds n true p ('-' :: cs)) (hcs : startsGap cs = true) :
    ∃ s', s.readToken '-' cs = .ok s' ∧
      s'.Holds ((n.openAt p.column .openBlockList).push [.entry]) true (p.skip 1) cs := by
  have hmark : startsMark ('-' :: cs) = false := by
    cases cs with
    | nil => rfl
    | cons c cs =>
      have hc : c ≠ '-' := by
        rintro rfl
        cases hcs
      unfold startsMark
      split
      · next heq => exact absurd (List.cons.inj (List.cons.inj heq).2).1 hc
      · next heq => exact absurd (List.cons.inj heq).1 (by decide)
      · rfl
  have hread : s.readToken '-' cs = s.readEntry := by
    simp [readToken, hmark, hcs]
  have hopen := h.openBlock p.column .openBlockList
  have hmark : s.blockMark .misplacedEntry .openBlockList
      = .ok (s.openBlock p.column s.tokens.size .openBlockList) := by
    rw [blockMark, h.inFlow, h.keyAllowed, Layout.column, h.cursor]
    rfl
  have hholds :
      Holds (allowKey { s.openBlock p.column s.tokens.size .openBlockList with key := none } true)
        (n.openAt p.column .openBlockList) true p ('-' :: cs) :=
    ⟨hopen.tokens, hopen.indents, rfl, hopen.cursor, hopen.outerKeys, nofun⟩
  refine ⟨_, ?_, hholds.take .entry⟩
  rw [hread, readEntry, hmark]
  simp only [bind, Except.bind, hopen.dropKey]
  rfl

/-! ## scalars and keys -/

/-- the reader is in front of the lines, with or without a gap before them -/
def Before (s : Layout) (n : Nest) (ls : List Line) : Prop :=
  ∃ allowed p cs, s.Holds n allowed p cs ∧ Faces ls (skipGapFrom false allowed false p cs)

theorem startsMark_iff (cs : List Char) : startsMark cs = true ↔
    ∃ m ds, (m = '-' ∨ m = '.') ∧ cs = [m, m, m] ++ ds ∧ startsGap ds = true := by
  constructor
  · intro h
    unfold startsMark at h
    split at h
    · exact ⟨'-', _, Or.inl rfl, rfl, h⟩
    · exact ⟨'.', _, Or.inr rfl, rfl, h⟩
    · cases h
  · rintro ⟨m, ds, rfl | rfl, rfl, h⟩ <;> exact h

theorem startsMark_append (cs rest : List Char) (h : startsMark cs = false)
    (hrest : ∀ c ∈ rest.head?, c ≠ '-' ∧ c ≠ '.') : startsMark (cs ++ rest) = false := by
  rw [Bool.eq_false_iff] at h ⊢
  intro happend
  obtain ⟨m, ds, hm, heq, hgap⟩ := (startsMark_iff _).mp happend
  have hmark : cs ≠ [m, m, m] := fun hcs => h ((startsMark_iff cs).mpr ⟨m, [], hm, hcs, rfl⟩)
  have hhead (more : List Char) : rest ≠ m :: more := by
    rintro rfl
    obtain ⟨hdash, hdot⟩ := hrest m rfl
    exact hm.elim hdash hdot
  rcases List.append_eq_append_iff.mp heq with ⟨as, hmarks, hds⟩ | ⟨bs, hcs, hds⟩
  · -- the mark would reach into the rest
    cases as with
    | nil => exact hmark (by rw [hmarks, List.append_nil])
    | cons a as =>
      have ha : a ∈ [m, m, m] := by
        rw [hmarks]
        exact List.mem_append_right _ (List.mem_cons_self ..)
      have ha : a = m := by simpa using ha
      exact hhead (as ++ ds) (by rw [hds, ha, List.cons_append])
  · cases bs with
    | nil => exact hmark (by rw [hcs, List.append_nil])
    | cons b bs =>
      rw [hds] at hgap
      exact h ((startsMark_iff cs).mpr ⟨m, b :: bs, hm, hcs, hgap⟩)

theorem readToken_plain (s : Layout) (hflow : s.inFlow = false) (c : Char) (cs : List Char)
    (hstarts : startsPlain false c cs = true) (hdash : (c == '-' && startsGap cs) = false)
    (hmark : startsMark (c :: cs) = false) : s.readToken c cs = s.readPlainScalar := by
  have hpercent : (c == '%') = false := by
    rw [beq_eq_false_iff_ne]
    rintro rfl
    cases hstarts
  -- a question mark or a colon starts a plain scalar if there is no gap behind it
  have hgap (d : Char) (hd : d = '?' ∨ d = ':') : (c == d && startsGap cs) = false := by
    by_cases hc : c = d
    · subst hc
      rcases hd with rfl | rfl <;> simpa [startsPlain] using hstarts
    · rw [beq_eq_false_iff_ne.mpr hc, Bool.false_and]
  have hblock (d : Char) (hd : d = '|' ∨ d = '>') : (c == d) = false := by
    rw [beq_eq_false_iff_ne]
    rintro rfl
    rcases hd with rfl | rfl <;> cases hstarts
  unfold readToken
  simp only [hpercent, hmark, Bool.and_false, Bool.false_eq_true, if_false, pure, Except.pure, bind]
  split
  all_goals try cases hstarts
  simp [hdash, hflow, hgap, hblock, hstarts]

/-- the first character of a plain scalar makes the reader read one -/
theorem Holds.readToken_word {s : Layout} {n : Nest} {allowed : Bool} {p : Pos} {ds : List Char}
    (h : s.Holds n allowed p ds) {behind rest : List Char}
    (hrest : startsGap rest = startsGap behind)
    (hmark : ∀ c ∈ rest.head?, c ≠ '-' ∧ c ≠ '.') {c : Char} {cs : List Char}
    (hplain : isPlain behind (c :: cs) = true) :
    s.readToken c (cs ++ rest) = s.readPlainScalar := by
  simp only [isPlain, Bool.and_eq_true, Bool.not_eq_true'] at hplain
  obtain ⟨⟨⟨⟨hstarts, hdash⟩, hmarks⟩, _⟩, _⟩ := hplain
  rw [← startsGap_append cs rest behind hrest] at hdash
  refine readToken_plain s h.inFlow c _ ?_ hdash (startsMark_append (c :: cs) rest hmarks hmark)
  unfold startsPlain at hstarts ⊢
  rw [startsGap_append cs rest behind hrest]
  split
  · next hc =>
    -- what follows a dash is no gap, so no space
    rw [hc, Bool.true_and] at hdash
    cases hcs : cs ++ rest with
    | nil => rfl
    | cons d ds =>
      have hd : isGap d = false := by rwa [hcs] at hdash
      rw [isGap, Bool.or_eq_false_iff] at hd
      simp [hd.1]
  · next hc => rwa [if_neg hc] at hstarts

theorem Holds.saved {s : Layout} {n : Nest} {allowed : Bool} {p : Pos} {cs : List Char}
    (h : s.Holds n allowed p cs) (hcolumn : allowed = true → n.indents.head? ≠ some p.column) :
    ∃ s', s.saveKey = .ok s' ∧ s'.Holds n allowed p cs := by
  cases allowed with
  | true =>
    refine ⟨_, h.saveKey, h.tokens, h.indents, h.keyAllowed, h.cursor, h.outerKeys, ?_⟩
    rintro k hk
    obtain rfl := Option.mem_some.mp hk
    exact decide_eq_false (hcolumn rfl)
  | false =>
    refine ⟨s, ?_, h⟩
    rw [Layout.saveKey, if_neg (by rw [h.keyAllowed]; exact Bool.false_ne_true)]
    rfl

/-- a scalar has been read up to a place in front of the lines below -/
theorem Holds.moved {s : Layout} {n : Nest} {allowed : Bool} {p : Pos} {cs : List Char}
    (h : s.Holds n allowed p cs) (c : Cursor) (broken : Bool) (t : Token) {ls : List Line}
    (hfaces : Faces ls (skipGapFrom false broken false c.pos c.rest)) :
    (Layout.push { s with cursor := c, keyAllowed := broken } t).Before (n.push [t]) ls := by
  refine ⟨broken, c.pos, c.rest, ⟨?_, h.indents, rfl, rfl, h.outerKeys, h.key⟩, hfaces⟩
  show (s.tokens.push t).toList = n.tokens ++ [t]
  rw [Array.toList_push, h.tokens]

theorem Holds.inner {s : Layout} {n : Nest} {allowed : Bool} {p : Pos} {cs : List Char}
    (h : s.Holds n allowed p cs) : s.inner = n.indents.head?.elim 0 (· + 1) := by
  rw [Layout.inner, h.indents]

theorem inner_le (n : Nest) (column : Nat) (h : ∀ i ∈ n.indents.head?, i ≤ column) :
    n.indents.head?.elim 0 (· + 1) ≤ column + 1 := by
  cases hi : n.indents.head? with
  | none => exact Nat.zero_le _
  | some i => exact Nat.succ_le_succ (h i hi)

theorem lt_inner (n : Nest) (ls : List Line) (h : n.Covers ls) :
    ∀ l ∈ ls.head?, l.lead.indent < n.indents.head?.elim 0 (· + 1) := by
  intro l hl
  obtain ⟨i, hi, hle⟩ := h l hl
  rw [Option.mem_def.mp hi]
  exact Nat.lt_succ_of_le hle

/-- a quoted scalar, when its text is read up to a place in front of the lines below -/
theorem Holds.quoted {s s₁ : Layout} {n : Nest} {allowed : Bool} {p q : Pos} {cs ds : List Char}
    (h : s₁.Holds n allowed p cs) (hsave : s.saveKey = .ok s₁) (double : Bool) {text : List Char}
    {es : List Char} (hcursor : s₁.cursor.skip 1 = ⟨p.skip 1, es⟩)
    (hread : readQuoted double ⟨p.skip 1, es⟩ = .ok (text, ⟨q, ds⟩)) {ls : List Line}
    (hends : Ends ls ds) :
    ∃ s', s.readPart (quotedToken double) = .ok s' ∧
      s'.Before (n.push [.scalar false (String.ofList text)]) ls ∧
      s'.cursor.rest.length ≤ ds.length := by
  refine ⟨_, ?_, h.moved ⟨q, ds⟩ false _ (faces_of_ends hends false q), Nat.le_refl _⟩
  rw [readPart, hsave]
  simp only [bind, Except.bind, quotedToken, hcursor, hread]
  rfl

/-- a scalar that is no key, up to the next line -/
theorem Holds.scalar {s : Layout} {n : Nest} {allowed : Bool} {p : Pos} {cs : List Char}
    (sc : Scalar) (h : s.Holds n allowed p (sc.chars ++ cs))
    (hcolumn : allowed = true → n.indents.head? ≠ some p.column)
    (hinner : ∀ i ∈ n.indents.head?, i ≤ p.column) {ls : List Line} (hends : Ends ls cs)
    (hcovers : n.Covers ls) :
    ∃ c ds s', sc.chars ++ cs = c :: ds ∧ s.readToken c ds = .ok s' ∧
      s'.Before (n.push [sc.token]) ls ∧ s'.cursor.rest.length ≤ cs.length := by
  obtain ⟨s₁, hsave, hs₁⟩ := h.saved hcolumn
  have hgap := startsGap_of_ends hends
  have hmark : ∀ c ∈ cs.head?, c ≠ '-' ∧ c ≠ '.' ∧ c ≠ '\'' := by
    intro c hc
    obtain ⟨ds, rfl⟩ := List.head?_eq_some_iff.mp hc
    have hc : isGap c = true := hgap
    refine ⟨?_, ?_, ?_⟩ <;> rintro rfl <;> cases hc
  cases sc with
  | plain chars hplain =>
    obtain ⟨c, chars', rfl, _⟩ := exists_of_isPlain hplain
    have hi := inner_le n p.column hinner
    have hword :=
      plainFrom_word (n.indents.head?.elim 0 (· + 1)) [] cs hgap (c :: chars') p hi hplain
    obtain ⟨broken, d, hread, hlength, hfaces⟩ := plainFrom_of_ends _ hends (lt_inner n ls hcovers)
      ((c :: chars').foldl Pos.next p) (c :: chars').reverse
    rw [← hword] at hread
    refine ⟨c, chars' ++ cs, _, rfl, ?_, hs₁.moved d broken _ hfaces, hlength⟩
    rw [h.readToken_word hgap (fun c hc => ⟨(hmark c hc).1, (hmark c hc).2.1⟩) hplain,
      readPlainScalar, hsave]
    simp only [bind, Except.bind, hs₁.inFlow, hs₁.inner, hs₁.cursor, readPlain, Scalar.chars, hread]
    rw [List.reverse_reverse]
    rfl
  | single text htext =>
    have hchars : (Scalar.single text htext).chars ++ cs
        = '\'' :: (text.flatMap singleQuoted ++ '\'' :: cs) := by
      simp [Scalar.chars]
    obtain ⟨q, hread⟩ := singleFrom_text cs (fun hc => (hmark _ hc).2.2 rfl) text htext (p.skip 1)
      (Nat.succ_pos _) [] []
    have hcursor : s₁.cursor.skip 1 = ⟨p.skip 1, text.flatMap singleQuoted ++ '\'' :: cs⟩ := by
      rw [hs₁.cursor, hchars]
      rfl
    obtain ⟨s', hpart, hbefore, hlength⟩ := hs₁.quoted hsave false hcursor hread hends
    refine ⟨'\'', _, s', hchars, ?_, hbefore, hlength⟩
    rw [← hpart]
    simp [readToken, startsMark]
  | double parts hparts =>
    have hchars : (Scalar.double parts hparts).chars ++ cs
        = '"' :: (parts.flatMap QuotePart.chars ++ '"' :: cs) := by
      simp [Scalar.chars]
    obtain ⟨q, hread⟩ := doubleFrom_parts cs parts hparts (p.skip 1) (Nat.succ_pos _) [] []
    have hcursor : s₁.cursor.skip 1 = ⟨p.skip 1, parts.flatMap QuotePart.chars ++ '"' :: cs⟩ := by
      rw [hs₁.cursor, hchars]
      rfl
    obtain ⟨s', hpart, hbefore, hlength⟩ := hs₁.quoted hsave true hcursor hread hends
    refine ⟨'"', _, s', hchars, ?_, hbefore, hlength⟩
    rw [← hpart]
    simp [readToken, startsMark]

/-- The reader is behind the scalar `t` that stands at a column and may become a key, and in front
of its colon. -/
structure Keyed (s : Layout) (n : Nest) (t : Token) (column : Nat) (q : Pos) (cs : List Char) :
    Prop where
  tokens : s.tokens.toList = n.tokens ++ [t]
  indents : s.indents = n.indents
  cursor : s.cursor = ⟨q, ':' :: cs⟩
  outerKeys : s.outerKeys = []
  key : ∃ k, s.key = some k ∧ k.token = n.tokens.length ∧ k.pos.column = column ∧
    k.pos.line = q.line ∧ q.bytes ≤ k.pos.bytes + 1024

theorem Holds.word {s : Layout} {n : Nest} {p : Pos} {cs : List Char} (k : Word)
    (h : s.Holds n true p (k.chars ++ ':' :: cs)) (hcs : startsGap cs = true)
    (hinner : ∀ i ∈ n.indents.head?, i ≤ p.column) :
    ∃ c ds s' q, k.chars ++ ':' :: cs = c :: ds ∧ s.readToken c ds = .ok s' ∧
      s'.Keyed n k.token p.column q cs ∧ p.column < q.column := by
  obtain ⟨c, chars, hchars, _⟩ := exists_of_isPlain k.plain
  have hplain : isPlain [':'] (c :: chars) = true := hchars ▸ k.plain
  have hi := inner_le n p.column hinner
  obtain ⟨q, hq⟩ : ∃ q, q = k.chars.foldl Pos.next p := ⟨_, rfl⟩
  have hread : plainFrom false (n.indents.head?.elim 0 (· + 1)) p {} [] (k.chars ++ ':' :: cs)
      = .ok ⟨k.chars, false, ⟨q, ':' :: cs⟩⟩ := by
    rw [plainFrom_word _ [':'] (':' :: cs) rfl k.chars p hi k.plain, ← hq,
      plainFrom_cons _ _ _ _ _ _ (by decide), if_neg (by decide), if_pos (by simp [hcs]),
      List.reverse_reverse]
  rw [foldl_next] at hq
  refine ⟨c, chars ++ ':' :: cs, Layout.push { s with
      key := some ⟨decide (n.indents.head? = some p.column), n.tokens.length, p⟩
      cursor := ⟨q, ':' :: cs⟩
      keyAllowed := false } k.token, q, by rw [hchars, List.cons_append], ?_, ?_, ?_⟩
  · have hflow := h.inFlow
    have hinner := h.inner
    rw [h.readToken_word (by rfl) (by simp) hplain, readPlainScalar, h.saveKey]
    simp only [bind, Except.bind, readPlain, Layout.inFlow, Layout.inner,
      h.cursor] at hflow hinner ⊢
    rw [hflow, hinner, hread]
    rfl
  · refine ⟨?_, h.indents, rfl, h.outerKeys, ⟨_, rfl, rfl, rfl, ?_, ?_⟩⟩
    · show (s.tokens.push k.token).toList = _
      rw [Array.toList_push, h.tokens]
    · rw [hq]
    · rw [hq]
      exact Nat.add_le_add_left k.short _
  · rw [hq, hchars]
    exact Nat.lt_add_of_pos_right (Nat.succ_pos _)

section
variable {s : Layout} {n : Nest} {t : Token} {column : Nat} {q : Pos} {cs : List Char}

theorem Keyed.inFlow (h : s.Keyed n t column q cs) : s.inFlow = false := by
  rw [Layout.inFlow, h.outerKeys]
  rfl

/-- nothing is skipped in front of the colon, and the key has not become stale -/
theorem Keyed.dropStaleKeys (h : s.Keyed n t column q cs) : s.skipGap.dropStaleKeys = .ok s := by
  obtain ⟨k, hkey, _, _, hline, hbytes⟩ := h.key
  have hskip : s.skipGap = { s with cursor := ⟨q, ':' :: cs⟩ } := by
    rw [skipGap, h.inFlow, h.cursor, skipGapFrom_content _ q ':' cs (by decide)]
  have hkeep : keepKey q (some k) = .ok (some k) := by
    rw [keepKey, if_neg]
    simp only [Bool.or_eq_true, decide_eq_true_eq]
    omega
  rw [hskip, Layout.dropStaleKeys]
  simp only [hkey, hkeep, h.outerKeys, List.mapM_nil, bind, Except.bind, pure, Except.pure]
  rw [← h.cursor, ← hkey, ← h.outerKeys]

/-- no block is closed at the colon -/
theorem Keyed.closeTo (h : s.Keyed n t column q cs) (hinner : ∀ i ∈ n.indents.head?, i < q.column) :
    s.closeTo q.column = s := by
  have hnone : s.indents.takeWhile (q.column < ·) = [] := by
    rw [h.indents]
    cases hindents : n.indents with
    | nil => rfl
    | cons i is =>
      have hlt : i < q.column := hinner i (by rw [hindents]; rfl)
      rw [List.takeWhile_cons_of_neg]
      simp only [decide_eq_true_eq]
      omega
  rw [Layout.closeTo, h.inFlow, if_neg Bool.false_ne_true, hnone]
  simp

/-- the marks of the key and of its block go in front of the scalar -/
theorem Keyed.openBlock (h : s.Keyed n t column q cs) {s₁ : Layout}
    (hs₁ : s₁ = Layout.openBlock { s with
      tokens := s.tokens.insertIdxIfInBounds n.tokens.length .key, key := none }
        column n.tokens.length .openBlockMap) :
    s₁.tokens.toList = (n.openAt column .openBlockMap).tokens ++ [.key, t] ∧
      s₁.indents = (n.openAt column .openBlockMap).indents ∧ s₁.cursor = s.cursor ∧
      s₁.outerKeys = [] ∧ s₁.key = none := by
  have htokens : (s.tokens.insertIdxIfInBounds n.tokens.length .key).toList
      = n.tokens ++ .key :: [t] := toList_insertIdxIfInBounds _ _ _ _ h.tokens
  rw [hs₁, Layout.openBlock, Nest.openAt]
  rw [show Layout.inFlow { s with tokens := _, key := none } = s.inFlow from rfl, h.inFlow,
    Bool.false_or]
  simp only [h.indents]
  split
  · exact ⟨htokens, rfl, rfl, h.outerKeys, rfl⟩
  · refine ⟨?_, rfl, rfl, h.outerKeys, rfl⟩
    rw [toList_insertIdxIfInBounds _ n.tokens _ _ htokens, List.append_assoc]
    rfl

/-- the colon makes a key of the scalar in front of it -/
theorem Keyed.colon (h : s.Keyed n t column q cs) (hcs : startsGap cs = true)
    (hinner : ∀ i ∈ n.indents.head?, i < q.column) :
    ∃ s', (∀ m, readTokens (m + 1) s = readTokens m s') ∧
      s'.Holds ((n.openAt column .openBlockMap).push [.key, t, .value]) false (q.skip 1) cs := by
  obtain ⟨k, hkey, htoken, hcolumn, _, _⟩ := h.key
  have hread : s.readToken ':' cs = s.readValue := by
    simp [readToken, startsMark, hcs]
  obtain ⟨s₁, hs₁⟩ : ∃ s₁, s₁ = Layout.openBlock { s with
      tokens := s.tokens.insertIdxIfInBounds n.tokens.length .key, key := none }
        column n.tokens.length .openBlockMap := ⟨_, rfl⟩
  obtain ⟨hopened, hindents, hcursor, houter, hnone⟩ := h.openBlock hs₁
  refine ⟨(s₁.allowKey false).take 1 .value, fun m => ?_, ?_, ?_, rfl, ?_, houter, ?_⟩
  · have hcolumn' : s.column = q.column := by
      rw [Layout.column, h.cursor]
      rfl
    rw [readTokens, h.dropStaleKeys]
    simp only [bind, Except.bind]
    rw [hcolumn', h.closeTo hinner, h.cursor]
    simp only [hread, readValue, hkey]
    rw [htoken, hcolumn, ← hs₁]
    rfl
  · show (s₁.tokens.push .value).toList = _
    rw [Array.toList_push, hopened, List.append_assoc]
    rfl
  · exact hindents
  · show s₁.cursor.skip 1 = _
    rw [hcursor, h.cursor]
    rfl
  · show ∀ k ∈ s₁.key, k.required = false
    rw [hnone]
    exact fun k hk => absurd hk (Option.not_mem_none k)

end

end Layout

end Netlab.Yaml
