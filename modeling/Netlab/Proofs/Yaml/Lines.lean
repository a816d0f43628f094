import Netlab.Proofs.Yaml.Steps

/-!
# The tokens of the lines of a text

The reader of tokens takes a line after the other: its dashes (`Layout.At.dashes`), what stands
behind them (`Layout.At.body`) and the gap up to the next one.  At the end it has the tokens of the
nest that the lines make: `tokens_written`.
-/

namespace Netlab.Yaml

open Layout (skipGapFrom)

namespace Layout

/-! ## lines -/

/-- behind a gap, the reader is in front of the characters, and a key may stand there -/
def At (s : Layout) (n : Nest) (q : Pos) (cs : List Char) : Prop :=
  ∃ allowed p ds, s.Holds n allowed p ds ∧
    skipGapFrom false allowed false p ds = (true, ⟨q, cs⟩)

theorem Holds.length_le {s : Layout} {n : Nest} {allowed : Bool} {p : Pos} {cs : List Char}
    (h : s.Holds n allowed p cs) {allowed' : Bool} {q : Pos} {ds : List Char}
    (hgap : skipGapFrom false allowed false p cs = (allowed', ⟨q, ds⟩)) :
    ds.length ≤ s.cursor.rest.length := by
  have hlength := skipGapFrom_length false allowed false p cs
  rw [hgap] at hlength
  rwa [h.cursor]

theorem reaches_of_step {s s₁ s' : Layout} {c : Char} {cs : List Char}
    (hstep : ∀ m, readTokens (m + 1) s = s₁.readToken c cs >>= readTokens m)
    (hread : s₁.readToken c cs = .ok s') (hlength : s'.cursor.rest.length < s.cursor.rest.length) :
    Reaches s s' := by
  refine ⟨1, by omega, fun m => ?_⟩
  rw [hstep, hread]
  rfl

theorem At.step {s : Layout} {n : Nest} {q : Pos} {c : Char} (cs : List Char)
    (h : s.At n q (c :: cs)) : cs.length < s.cursor.rest.length ∧
      ∃ s₁ : Layout, s₁.Holds (n.closeFrom (q.column + 1)) true q (c :: cs) ∧
        ∀ m, readTokens (m + 1) s = s₁.readToken c cs >>= readTokens m := by
  obtain ⟨allowed, p, ds, hholds, hgap⟩ := h
  obtain ⟨s₁, hs₁, _, hstep⟩ := hholds.step hgap
  exact ⟨hholds.length_le hgap, s₁, hs₁, hstep c cs rfl⟩

theorem Holds.before {s : Layout} {n : Nest} {allowed : Bool} {p : Pos} {cs : List Char}
    (h : s.Holds n allowed p cs) {ls : List Line} (hends : Ends ls cs) : s.Before n ls :=
  ⟨allowed, p, cs, h, faces_of_ends hends allowed p⟩

theorem At.dash {s : Layout} {n : Nest} {q : Pos} (gap : Nat) {c : Char} {cs : List Char}
    (hc : startsContent c = true) (h : s.At n q (dashChars gap ++ c :: cs)) :
    ∃ s', Reaches s s' ∧ s'.At (n.dash q.column) (q.skip (gap + 2)) (c :: cs) := by
  obtain ⟨hlength, s₁, hs₁, hstep⟩ := At.step (spaces (gap + 1) ++ c :: cs) h
  obtain ⟨s', hread, hs'⟩ := hs₁.entry rfl
  refine ⟨s', reaches_of_step hstep hread ?_, true, q.skip 1, _, hs', ?_⟩
  · rwa [hs'.cursor]
  · rw [skipGapFrom_spaces, skipGapFrom_content _ _ c cs hc, Pos.skip_skip]
    rw [show 1 + (gap + 1) = gap + 2 by omega]

theorem At.dashes {n : Nest} {c : Char} {cs : List Char} (hc : startsContent c = true)
    (gaps : List Nat) {s : Layout} {q : Pos} (h : s.At n q (gaps.flatMap dashChars ++ c :: cs)) :
    ∃ s' q', Reaches s s' ∧ s'.At (n.dashes q.column gaps) q' (c :: cs) ∧
      q'.column = q.column + (gaps.map (· + 2)).sum := by
  induction gaps generalizing s n q with
  | nil => exact ⟨s, q, Reaches.refl s, h, rfl⟩
  | cons gap gaps ih =>
    rw [List.flatMap_cons, List.append_assoc] at h
    obtain ⟨d, ds, hds, hd⟩ : ∃ d ds, gaps.flatMap dashChars ++ c :: cs = d :: ds ∧
        startsContent d = true := by
      cases gaps with
      | nil => exact ⟨c, cs, rfl, hc⟩
      | cons gap gaps => exact ⟨'-', _, rfl, by decide⟩
    rw [hds] at h
    obtain ⟨s₁, hs₁, hdash⟩ := h.dash gap hd
    rw [← hds] at hdash
    obtain ⟨s', q', hs', hdashes, hcolumn⟩ := ih hdash
    refine ⟨s', q', hs₁.trans hs', hdashes, ?_⟩
    rw [hcolumn, List.map_cons, List.sum_cons, Pos.skip]
    show q.column + (gap + 2) + _ = _
    omega

theorem Holds.closeAll {s : Layout} {n : Nest} {allowed : Bool} {p : Pos} {cs : List Char}
    (h : s.Holds n allowed p cs) : s.closeAll.Holds (n.closeFrom 0) allowed p cs := by
  have hall : n.indents.takeWhile (0 ≤ ·) = n.indents := by
    rw [List.takeWhile_eq_self_iff]
    simp
  rw [Layout.closeAll, h.inFlow, if_neg Bool.false_ne_true, Nest.closeFrom, hall, List.drop_length]
  refine ⟨?_, rfl, h.keyAllowed, h.cursor, h.outerKeys, h.key⟩
  show (s.tokens ++ s.indents.map fun _ => Token.closeBlock).toList = _
  rw [Array.toList_appendList, h.tokens, h.indents]

/-- the mark in front of a document -/
theorem Holds.mark {s : Layout} {n : Nest} {p : Pos} {cs : List Char}
    (h : s.Holds n true p (['-', '-', '-'] ++ cs)) (hp : p.column = 0) (hcs : startsGap cs = true) :
    ∃ s', s.readToken '-' (['-', '-'] ++ cs) = .ok s' ∧
      s'.Holds ((n.closeFrom 0).push [.documentStart]) false (p.skip 3) cs := by
  have hclosed := h.closeAll
  have hcolumn : s.column = 0 := by
    rw [Layout.column, h.cursor]
    exact hp
  have hmark : startsMark ('-' :: '-' :: '-' :: cs) = true := hcs
  refine ⟨Layout.take (allowKey { s.closeAll with key := none } false) 3 .documentStart, ?_, ?_⟩
  · simp [readToken, hcolumn, hmark, atDocument, hclosed.dropKey, bind, Except.bind]
    rfl
  · refine ⟨?_, hclosed.indents, rfl, ?_, hclosed.outerKeys,
      fun k hk => absurd hk (Option.not_mem_none k)⟩
    · show (s.closeAll.tokens.push .documentStart).toList = _
      rw [Array.toList_push, hclosed.tokens]
      rfl
    · show s.closeAll.cursor.skip 3 = _
      rw [hclosed.cursor]
      rfl

/-- a key with its colon -/
theorem At.key {s : Layout} {n : Nest} {q : Pos} (k : Word) {cs : List Char}
    (h : s.At n q (k.chars ++ ':' :: cs)) (hcs : startsGap cs = true) :
    ∃ s' r, Reaches s s' ∧ s'.Holds (n.key q.column k) false r cs ∧ q.column < r.column := by
  obtain ⟨c, ds, hchars, _⟩ := exists_of_isPlain k.plain
  rw [hchars, List.cons_append] at h
  obtain ⟨hlength, s₁, hs₁, hstep⟩ := h.step
  have hclosed := n.head_closeFrom (q.column + 1)
  rw [← List.cons_append, ← hchars] at hs₁
  obtain ⟨c', ds', s₂, r, heq, hread, hkeyed, hr⟩ :=
    hs₁.word k hcs fun i hi => Nat.le_of_lt_succ (hclosed i hi)
  rw [hchars, List.cons_append] at heq
  obtain ⟨rfl, rfl⟩ := List.cons.inj heq
  obtain ⟨s', hcolon, hs'⟩ := hkeyed.colon hcs fun i hi => by
    have hi := hclosed i hi
    omega
  refine ⟨s', r.skip 1, ⟨2, ?_, fun m => ?_⟩, hs', Nat.lt_succ_of_lt hr⟩
  · rw [hs'.cursor]
    rw [List.length_append, List.length_cons] at hlength
    show 2 + cs.length ≤ _
    omega
  · rw [← Nat.add_assoc m 1 1, hstep, hread]
    exact hcolon m

/-- a scalar that is no key, up to the next line -/
theorem At.scalar {s : Layout} {n : Nest} {q : Pos} (sc : Scalar) {cs : List Char} {ls : List Line}
    (h : s.At n q (sc.chars ++ cs)) (hends : Ends ls cs)
    (hcolumn : ∀ i ∈ (n.closeFrom (q.column + 1)).indents.head?, i < q.column)
    (hcovers : (n.closeFrom (q.column + 1)).Covers ls) :
    ∃ s', Reaches s s' ∧ s'.Before ((n.closeFrom (q.column + 1)).push [sc.token]) ls := by
  obtain ⟨c, ds, hchars, _⟩ := sc.exists_chars
  rw [hchars, List.cons_append] at h
  obtain ⟨hlength, s₁, hs₁, hstep⟩ := h.step
  rw [← List.cons_append, ← hchars] at hs₁
  obtain ⟨c', ds', s', heq, hread, hbefore, hrest⟩ := hs₁.scalar sc
    (fun _ hi => Nat.lt_irrefl _ (hcolumn _ hi)) (fun i hi => Nat.le_of_lt (hcolumn i hi)) hends
    hcovers
  rw [hchars, List.cons_append] at heq
  obtain ⟨rfl, rfl⟩ := List.cons.inj heq
  refine ⟨s', reaches_of_step hstep hread ?_, hbefore⟩
  rw [List.length_append] at hlength
  omega

/-- a scalar beside its key, up to the next line -/
theorem Holds.beside {s : Layout} {n : Nest} {column : Nat} {r : Pos} (k : Word) (gap : Nat)
    (sc : Scalar) {cs : List Char} {ls : List Line}
    (h : s.Holds (n.key column k) false r (spaces (gap + 1) ++ (sc.chars ++ cs)))
    (hr : column < r.column) (hends : Ends ls cs) (hcovers : (n.key column k).Covers ls) :
    ∃ s', Reaches s s' ∧ s'.Before ((n.key column k).push [sc.token]) ls := by
  obtain ⟨c, ds, hchars, hc⟩ := sc.exists_chars
  have hskip : skipGapFrom false false false r (spaces (gap + 1) ++ (sc.chars ++ cs))
      = (false, ⟨r.skip (gap + 1), sc.chars ++ cs⟩) := by
    rw [skipGapFrom_spaces, hchars, List.cons_append, skipGapFrom_content _ _ c _ hc]
  obtain ⟨s₂, hs₂, _, hstep⟩ := h.step hskip
  -- the block of the key is open, and its column is in front of the scalar
  have hinner : ∀ i ∈ (n.key column k).indents.head?, i ≤ (r.skip (gap + 1)).column := by
    intro i hi
    have hi : some column = some i := (n.head_opened column .openBlockMap).symm.trans hi
    obtain rfl := Option.some.inj hi
    exact Nat.le_trans (Nat.le_of_lt hr) (Nat.le_add_right _ _)
  rw [Nest.closeFrom_of_head _ _ fun i hi => Nat.lt_succ_of_le (hinner i hi)] at hs₂
  obtain ⟨c', ds', s', heq, hread, hbefore, hrest⟩ :=
    hs₂.scalar sc (absurd · Bool.false_ne_true) hinner hends hcovers
  refine ⟨s', reaches_of_step (hstep c' ds' heq) hread ?_, hbefore⟩
  have hlength := h.length_le hskip
  rw [hchars, List.length_append, List.length_cons] at hlength
  omega

/-- the body of a line, up to the next one -/
theorem At.body {s : Layout} {n : Nest} {q : Pos} (b : Body) {cs : List Char} {ls : List Line}
    (h : s.At n q (b.chars ++ cs)) (hends : Ends ls cs)
    (hfits : n.FitsAt q.column b ls) :
    ∃ s', Reaches s s' ∧ s'.Before (n.body q.column b) ls := by
  have hgap := startsGap_of_ends hends
  cases b with
  | mark =>
    obtain ⟨hlength, s₁, hs₁, hstep⟩ := At.step (['-', '-'] ++ cs) h
    obtain ⟨s', hread, hs'⟩ := Holds.mark hs₁ hfits hgap
    refine ⟨s', reaches_of_step hstep hread ?_, hs'.before hends⟩
    rw [hs'.cursor]
    rw [List.length_append] at hlength
    show cs.length < _
    omega
  | dash =>
    obtain ⟨hlength, s₁, hs₁, hstep⟩ := At.step cs h
    obtain ⟨s', hread, hs'⟩ := hs₁.entry hgap
    refine ⟨s', reaches_of_step hstep hread ?_, hs'.before hends⟩
    rwa [hs'.cursor]
  | scalar sc => exact At.scalar sc h hends hfits.1 hfits.2
  | key k =>
    have hat : s.At n q (k.chars ++ ':' :: cs) := by
      rwa [Body.chars, List.append_assoc, List.singleton_append] at h
    obtain ⟨s', r, hs', hholds, _⟩ := hat.key k hgap
    exact ⟨s', hs', hholds.before hends⟩
  | pair k gap sc =>
    have hat : s.At n q (k.chars ++ ':' :: (spaces (gap + 1) ++ (sc.chars ++ cs))) := by
      rwa [Body.chars, List.append_assoc, List.cons_append, List.append_assoc] at h
    obtain ⟨s₁, r, hs₁, hholds, hr⟩ := hat.key k rfl
    obtain ⟨s', hs', hbefore⟩ := hholds.beside k gap sc hr hends hfits
    exact ⟨s', hs₁.trans hs', hbefore⟩

/-- the reader takes a line -/
theorem Before.line {s : Layout} {n : Nest} {l : Line} {ls : List Line} (h : s.Before n (l :: ls))
    (hfits : n.Fits l ls) : ∃ s', Reaches s s' ∧ s'.Before (n.line l) ls := by
  obtain ⟨allowed, p, ds, hholds, q, cs, hgap, hcolumn, hends⟩ := h
  obtain ⟨c, cs', hbody, hc⟩ := l.body.exists_chars
  have hat : s.At n q (l.lead.dashes.flatMap dashChars ++ c :: (cs' ++ cs)) := by
    refine ⟨allowed, p, ds, hholds, ?_⟩
    rw [hgap, Line.content, hbody, List.append_assoc, List.cons_append]
  obtain ⟨s₁, q', hs₁, hdashes, hq'⟩ := hat.dashes hc
  rw [← List.cons_append, ← hbody, hcolumn] at hdashes
  rw [hcolumn] at hq'
  have hq' : q'.column = l.lead.column := hq'
  have hline : (n.lead l.lead).body q'.column l.body = n.line l := by
    rw [hq', Nest.line]
  obtain ⟨s', hs', hbefore⟩ := hdashes.body l.body hends (hq' ▸ hfits)
  exact ⟨s', hs₁.trans hs', hline ▸ hbefore⟩

/-- the reader takes the lines one after the other -/
theorem Before.lines {s : Layout} {n : Nest} {ls : List Line} (h : s.Before n ls)
    (hfits : Nest.FitAll [] n ls) : ∃ s', Reaches s s' ∧ s'.Before (n.lines ls) [] := by
  induction ls generalizing s n with
  | nil => exact ⟨s, Reaches.refl s, h⟩
  | cons l ls ih =>
    obtain ⟨hfit, hfits⟩ := hfits
    rw [List.append_nil] at hfit
    obtain ⟨s₁, hs₁, hbefore⟩ := h.line hfit
    obtain ⟨s', hs', hend⟩ := ih hbefore hfits
    exact ⟨s', hs₁.trans hs', hend⟩

/-- at the end of the text the reader closes all blocks -/
theorem Before.end {s : Layout} {n : Nest} (h : s.Before n []) (m : Nat) :
    ∃ ts, readTokens (m + 1) s = .ok ts ∧ ts.toList = (n.closeFrom 0).tokens := by
  obtain ⟨allowed, p, cs, hholds, hfaces⟩ := h
  obtain ⟨allowed', ⟨q, ds⟩, hgap⟩ :
      ∃ allowed' c, skipGapFrom false allowed false p cs = (allowed', c) :=
    ⟨_, _, rfl⟩
  rw [hgap] at hfaces
  have hrest : ds = [] := hfaces
  obtain ⟨s', hs', hend, _⟩ := hholds.step hgap
  refine ⟨s'.closeAll.tokens, ?_, ?_⟩
  · rw [hend hrest m, hs'.closeAll.dropKey]
    rfl
  · rw [hs'.closeAll.tokens, Nest.closeFrom_closeFrom 0 (Nat.zero_le _)]

end Layout

/-! ## texts -/

/-- the tokens of a text in block style -/
theorem tokens_written {ls : List Line} {text : String} (h : Written ls text.toList)
    (hfits : Nest.FitAll [] {} ls) :
    tokens text = .ok ((Nest.lines {} ls).closeFrom 0).tokens := by
  have hstart : Layout.Before { cursor := ⟨{}, text.toList⟩ } {} ls :=
    ⟨true, {}, text.toList, ⟨rfl, rfl, rfl, rfl, rfl, nofun⟩, faces_of_written h {} rfl⟩
  obtain ⟨s, ⟨steps, hsteps, hreach⟩, hbefore⟩ := hstart.lines hfits
  have hsteps : steps ≤ text.toList.length := Nat.le_trans (Nat.le_add_right _ _) hsteps
  obtain ⟨ts, hts, htokens⟩ := hbefore.end (text.toList.length - steps)
  have hcount : text.toList.length + 1 = text.toList.length - steps + 1 + steps := by omega
  rw [tokens, h.isAllowed]
  rw [hcount, hreach, hts]
  simp only [← htokens]
  rfl

end Netlab.Yaml
