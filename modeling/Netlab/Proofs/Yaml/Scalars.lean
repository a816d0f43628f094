import Netlab.Proofs.Yaml.Outline

/-!
# Scalars on one line

What the readers of plain and quoted scalars make of a scalar that stands on one line, whatever
comes behind it: `plainFrom_word`, `singleFrom_text` and `doubleFrom_parts`.
-/

namespace Netlab.Yaml

theorem ne_return_of_not_isBreak {c : Char} (h : isBreak c = false) : c ≠ '\r' := by
  rintro rfl
  revert h
  decide

theorem isInline_iff (c : Char) : isInline c = true ↔ isAllowed c = true ∧ isBreak c = false := by
  rw [isInline, Bool.and_eq_true, Bool.not_eq_true']

/-- the number of characters and of bytes tell how far a position has moved along a line -/
theorem foldl_next (cs : List Char) (p : Pos) : cs.foldl Pos.next p =
    ⟨p.line, p.column + cs.length, p.bytes + (cs.map Char.utf8Size).sum⟩ := by
  induction cs generalizing p with
  | nil => rfl
  | cons c cs ih =>
    have hlength : p.column + 1 + cs.length = p.column + (cs.length + 1) := by omega
    rw [List.foldl_cons, ih, List.length_cons, List.map_cons, List.sum_cons,
      ← Nat.add_assoc p.bytes, ← hlength]
    rfl

namespace Gap

theorem addSpace_spaces (g : List Char) (c : Char) :
    addSpace { spaces := g } c = { spaces := g ++ [c] } := rfl

theorem empty_eq : ({} : Gap) = { spaces := [] } := rfl

theorem text_spaces (g : List Char) : text { spaces := g } = g := rfl

end Gap

/-! ## plain scalars -/

theorem startsGap_append (cs rest behind : List Char) (h : startsGap rest = startsGap behind) :
    startsGap (cs ++ rest) = startsGap (cs ++ behind) := by
  cases cs with
  | nil => exact h
  | cons c cs => rfl

theorem plainFrom_cons (indent : Nat) (p : Pos) (gap : Gap) (done cs : List Char) (c : Char)
    (hc : isBreak c = false) :
    plainFrom false indent p gap done (c :: cs) =
      if isSpace c then
        if gap.broken && p.column < indent && c == '\t' then .error .tabIndentation
        else plainFrom false indent (p.next c) (gap.addSpace c) done cs
      else if (c == ':' && startsGap cs) || (!gap.isEmpty
          && (p.column < indent || (p.column == 0 && startsMark (c :: cs)) || c == '#')) then
        .ok ⟨done.reverse, gap.broken, ⟨p, c :: cs⟩⟩
      else plainFrom false indent (p.next c) {} (c :: (gap.text.reverse ++ done)) cs := by
  rw [plainFrom]
  · simp [hc]
  · rintro cs' rfl
    exact absurd rfl (ne_return_of_not_isBreak hc)

/-- The rest of a plain scalar is read to its end.  Spaces that have been read count as part of it
as soon as something follows them. -/
theorem plainFrom_rest (indent : Nat) (behind rest : List Char)
    (hrest : startsGap rest = startsGap behind) (cs : List Char) (p : Pos) (g done : List Char)
    (hp : 0 < p.column) (hi : indent ≤ p.column) (h : isPlainRest behind cs = true)
    (hg : g = [] ∨ ∃ c cs', cs = c :: cs' ∧ c ≠ '#') :
    plainFrom false indent p { spaces := g } done (cs ++ rest)
      = plainFrom false indent (cs.foldl Pos.next p) {}
          (cs.reverse ++ (g.reverse ++ done)) rest := by
  induction cs generalizing p g done with
  | nil =>
    rcases hg with rfl | ⟨c, cs', hcs, _⟩
    · rfl
    · cases hcs
  | cons c cs ih =>
    simp only [isPlainRest, Bool.and_eq_true, Bool.not_eq_true', isInline_iff] at h
    obtain ⟨⟨⟨⟨_, hbreak⟩, hcolon⟩, hspace⟩, h⟩ := h
    have hp' : 0 < (p.next c).column := Nat.succ_pos _
    have hi' : indent ≤ (p.next c).column := Nat.le_succ_of_le hi
    rw [List.cons_append, plainFrom_cons _ _ _ _ _ _ hbreak, List.foldl_cons]
    by_cases hc : isSpace c = true
    · -- a space is followed by something that is no number sign
      rw [if_pos hc, if_neg (by simp), Gap.addSpace_spaces]
      have hnext : ∃ d ds, cs = d :: ds ∧ d ≠ '#' := by
        rw [hc, Bool.true_and] at hspace
        cases cs with
        | nil => simp at hspace
        | cons d ds => exact ⟨d, ds, rfl, by simpa using hspace⟩
      rw [ih _ _ _ hp' hi' h (Or.inr hnext)]
      simp
    · have hstops : ((c == ':' && startsGap (cs ++ rest)) || (!({ spaces := g } : Gap).isEmpty
          && (p.column < indent || (p.column == 0 && startsMark (c :: (cs ++ rest))) || c == '#')))
          = false := by
        rw [startsGap_append cs rest behind hrest, hcolon, Bool.false_or]
        rcases hg with rfl | ⟨c', cs', hcs, hsign⟩
        · rfl
        · obtain ⟨rfl, _⟩ := List.cons.inj hcs
          have hcolumn : (p.column == 0) = false := by
            rw [beq_eq_false_iff_ne]
            omega
          have hindent : decide (p.column < indent) = false := by
            rw [decide_eq_false_iff_not]
            omega
          rw [hcolumn, hindent, beq_eq_false_iff_ne.mpr hsign, Bool.false_and, Bool.or_self,
            Bool.or_self, Bool.and_false]
      rw [if_neg hc, hstops, if_neg Bool.false_ne_true, Gap.text_spaces]
      rw [Gap.empty_eq, ih _ _ _ hp' hi' h (Or.inl rfl)]
      simp

/-- a plain scalar is read to its end -/
theorem plainFrom_word (indent : Nat) (behind rest : List Char)
    (hrest : startsGap rest = startsGap behind) (cs : List Char) (p : Pos)
    (hi : indent ≤ p.column + 1) (h : isPlain behind cs = true) :
    plainFrom false indent p {} [] (cs ++ rest)
      = plainFrom false indent (cs.foldl Pos.next p) {} cs.reverse rest := by
  cases cs with
  | nil => cases h
  | cons c cs =>
    simp only [isPlain, Bool.and_eq_true, isPlainRest, Bool.not_eq_true', isInline_iff] at h
    obtain ⟨⟨⟨⟨hstarts, _⟩, _⟩, _⟩, ⟨⟨⟨_, hbreak⟩, hcolon⟩, _⟩, h⟩ := h
    have hspace : isSpace c = false := by
      rw [Layout.startsPlain] at hstarts
      by_cases hc : isSpace c = true
      · have hcases : c = ' ' ∨ c = '\t' := by simpa [isSpace] using hc
        rcases hcases with rfl | rfl <;> simp [isGap, isSpace] at hstarts
      · exact Bool.eq_false_iff.mpr hc
    rw [List.cons_append, plainFrom_cons _ _ _ _ _ _ hbreak, hspace, if_neg Bool.false_ne_true,
      startsGap_append cs rest behind hrest, hcolon, Bool.false_or, if_neg (by simp [Gap.isEmpty])]
    rw [Gap.empty_eq,
      plainFrom_rest indent behind rest hrest cs (p.next c) [] _ (Nat.succ_pos _) hi h (Or.inl rfl)]
    simp [Gap.text_spaces]

/-! ## single quotes -/

theorem singleFrom_cons (p : Pos) (gap : Gap) (done cs : List Char) (c : Char)
    (hp : 0 < p.column) (hc : isBreak c = false) (hquote : c ≠ '\'') :
    singleFrom p gap done (c :: cs) =
      if isSpace c then singleFrom (p.next c) (gap.addSpace c) done cs
      else singleFrom (p.next c) {} (c :: (gap.text.reverse ++ done)) cs := by
  have hcolumn : (p.column == 0) = false := by
    rw [beq_eq_false_iff_ne]
    omega
  rw [singleFrom]
  · simp [hc, hquote, hcolumn]
  · rintro cs' rfl
    exact absurd rfl (ne_return_of_not_isBreak hc)
  · rintro cs' rfl
    exact absurd rfl hquote

theorem singleFrom_quote (p : Pos) (gap : Gap) (done rest : List Char) (hp : 0 < p.column)
    (hrest : rest.head? ≠ some '\'') :
    singleFrom p gap done ('\'' :: rest)
      = .ok ((gap.text.reverse ++ done).reverse, ⟨p.next '\'', rest⟩) := by
  have hcolumn : (p.column == 0) = false := by
    rw [beq_eq_false_iff_ne]
    omega
  rw [singleFrom]
  · simp [hcolumn, isBreak, isSpace]
  · exact fun _ h => absurd h (by decide)
  · rintro cs' _ rfl
    exact hrest rfl

theorem singleFrom_text (rest : List Char) (hrest : rest.head? ≠ some '\'') (text : List Char)
    (h : text.all isInline = true) (p : Pos) (hp : 0 < p.column) (g done : List Char) :
    ∃ q, singleFrom p { spaces := g } done (text.flatMap singleQuoted ++ '\'' :: rest)
      = .ok (done.reverse ++ g ++ text, ⟨q, rest⟩) := by
  induction text generalizing p g done with
  | nil =>
    refine ⟨p.next '\'', ?_⟩
    rw [List.flatMap_nil, List.nil_append, singleFrom_quote p _ done rest hp hrest]
    simp [Gap.text_spaces]
  | cons c text ih =>
    rw [List.all_cons, Bool.and_eq_true, isInline_iff] at h
    obtain ⟨⟨_, hbreak⟩, h⟩ := h
    rw [List.flatMap_cons, List.append_assoc]
    by_cases hquote : c = '\''
    · obtain ⟨q, hq⟩ := ih h (p.skip 2) (Nat.succ_pos _) [] ('\'' :: (g.reverse ++ done))
      refine ⟨q, ?_⟩
      rw [singleQuoted, if_pos hquote, hquote, List.cons_append, List.cons_append, List.nil_append,
        singleFrom, Gap.text_spaces]
      rw [Gap.empty_eq, hq]
      simp
    · rw [singleQuoted, if_neg hquote, List.singleton_append,
        singleFrom_cons p _ _ _ c hp hbreak hquote]
      split
      · obtain ⟨q, hq⟩ := ih h (p.next c) (Nat.succ_pos _) (g ++ [c]) done
        refine ⟨q, ?_⟩
        rw [Gap.addSpace_spaces, hq]
        simp
      · obtain ⟨q, hq⟩ := ih h (p.next c) (Nat.succ_pos _) [] (c :: (g.reverse ++ done))
        refine ⟨q, ?_⟩
        rw [Gap.text_spaces, Gap.empty_eq, hq]
        simp

/-! ## double quotes -/

theorem doubleFrom_cons (p : Pos) (gap : Gap) (done cs : List Char) (c : Char)
    (hp : 0 < p.column) (hc : isBreak c = false) (hquote : c ≠ '"') (hescape : c ≠ '\\') :
    doubleFrom .text p gap done (c :: cs) =
      if isSpace c then doubleFrom .text (p.next c) (gap.addSpace c) done cs
      else doubleFrom .text (p.next c) {} (c :: (gap.text.reverse ++ done)) cs := by
  have hcolumn : (p.column == 0) = false := by
    rw [beq_eq_false_iff_ne]
    omega
  rw [doubleFrom]
  · simp [hc, hquote, hcolumn]
  · exact fun _ h _ => ne_return_of_not_isBreak hc h
  · exact fun _ h _ => hescape h
  · exact fun _ _ h _ => hescape h

theorem doubleFrom_quote (p : Pos) (gap : Gap) (done rest : List Char) (hp : 0 < p.column) :
    doubleFrom .text p gap done ('"' :: rest)
      = .ok ((gap.text.reverse ++ done).reverse, ⟨p.next '"', rest⟩) := by
  have hcolumn : (p.column == 0) = false := by
    rw [beq_eq_false_iff_ne]
    omega
  rw [doubleFrom]
  · simp [hcolumn, isBreak, isSpace]
  · exact fun _ h _ => absurd h (by decide)
  · exact fun _ h _ => absurd h (by decide)
  · exact fun _ _ h _ => absurd h (by decide)

theorem doubleFrom_short (p : Pos) (gap : Gap) (done cs : List Char) (letter c : Char)
    (hl : isBreak letter = false) (hc : escapedChar? letter = some c) :
    doubleFrom .text p gap done ('\\' :: letter :: cs)
      = doubleFrom .text (p.skip 2) {} (c :: (gap.text.reverse ++ done)) cs := by
  rw [doubleFrom]
  · simp [hl, hc]
  · exact fun _ h _ => ne_return_of_not_isBreak hl h

/-- an escape with digits starts with a letter that is none of the others -/
theorem escapeDigits?_eq_some {letter : Char} {n : Nat} (h : escapeDigits? letter = some n) :
    isBreak letter = false ∧ escapedChar? letter = none ∧ n ≠ 0 := by
  unfold escapeDigits? at h
  split at h <;> cases h <;> decide

theorem doubleFrom_code (p : Pos) (gap : Gap) (done cs : List Char) (letter : Char) (n : Nat)
    (hn : escapeDigits? letter = some n) :
    doubleFrom .text p gap done ('\\' :: letter :: cs)
      = doubleFrom (.digits n 0) (p.skip 2) {} (gap.text.reverse ++ done) cs := by
  obtain ⟨hl, hshort, _⟩ := escapeDigits?_eq_some hn
  rw [doubleFrom]
  · simp [hl, hshort, hn]
  · exact fun _ h _ => ne_return_of_not_isBreak hl h

theorem ne_of_hexValue? {c : Char} {d : Nat} (h : hexValue? c = some d) : c ≠ '\r' ∧ c ≠ '\\' := by
  constructor <;> rintro rfl <;> revert h <;> decide +revert

theorem doubleFrom_digit (p : Pos) (gap : Gap) (done cs : List Char) (c : Char) (n v d : Nat)
    (hd : hexValue? c = some d) :
    doubleFrom (.digits n v) p gap done (c :: cs)
      = if n ≤ 1 then
          match charOf? (v * 16 + d) with
          | some decoded => doubleFrom .text (p.next c) {} (decoded :: done) cs
          | none => .error .badEscape
        else doubleFrom (.digits (n - 1) (v * 16 + d)) (p.next c) {} done cs := by
  obtain ⟨hreturn, hescape⟩ := ne_of_hexValue? hd
  rw [doubleFrom]
  · cases hchar : charOf? (v * 16 + d) <;> simp [hd, hchar]
  · exact fun _ h _ => hreturn h
  · exact fun _ h _ => hescape h
  · exact fun _ _ h _ => hescape h

theorem doubleFrom_digits (rest : List Char) (decoded : Char) (digits : List Char) (p : Pos)
    (gap : Gap) (v : Nat) (done : List Char) (hne : digits ≠ [])
    (h : (QuotePart.valueFrom? v digits).bind charOf? = some decoded) :
    ∃ q, 0 < q.column ∧ doubleFrom (.digits digits.length v) p gap done (digits ++ rest)
      = doubleFrom .text q {} (decoded :: done) rest := by
  induction digits generalizing p gap v with
  | nil => exact absurd rfl hne
  | cons c digits ih =>
    obtain ⟨d, hd⟩ : ∃ d, hexValue? c = some d := by
      rw [← Option.isSome_iff_exists]
      cases hd : hexValue? c with
      | some d => rfl
      | none => simp [QuotePart.valueFrom?, hd] at h
    have hvalue : (QuotePart.valueFrom? (v * 16 + d) digits).bind charOf? = some decoded := by
      simpa [QuotePart.valueFrom?, hd] using h
    rw [List.cons_append, doubleFrom_digit _ _ _ _ _ _ _ d hd]
    cases digits with
    | nil =>
      have hchar : charOf? (v * 16 + d) = some decoded := hvalue
      rw [List.length_singleton, if_pos (Nat.le_refl 1), hchar]
      exact ⟨p.next c, Nat.succ_pos _, rfl⟩
    | cons e digits =>
      rw [if_neg (by simp), List.length_cons, Nat.add_sub_cancel]
      exact ih _ _ _ (List.cons_ne_nil _ _) hvalue

/-- a part of a double quoted scalar adds the character that it means -/
theorem doubleFrom_part (part : QuotePart) (h : part.isValid = true) (p : Pos) (hp : 0 < p.column)
    (g done rest : List Char) :
    ∃ q g' done', 0 < q.column ∧ done'.reverse ++ g' = done.reverse ++ g ++ [part.meant] ∧
      doubleFrom .text p { spaces := g } done (part.chars ++ rest)
        = doubleFrom .text q { spaces := g' } done' rest := by
  cases part with
  | raw c =>
    simp only [QuotePart.isValid, Bool.and_eq_true, isInline_iff, bne_iff_ne] at h
    obtain ⟨⟨⟨_, hbreak⟩, hquote⟩, hescape⟩ := h
    rw [QuotePart.chars, List.singleton_append,
      doubleFrom_cons p _ _ _ c hp hbreak hquote hescape, Gap.text_spaces, Gap.addSpace_spaces]
    split
    · exact ⟨p.next c, g ++ [c], done, Nat.succ_pos _, by simp [QuotePart.meant], rfl⟩
    · exact ⟨p.next c, [], c :: (g.reverse ++ done), Nat.succ_pos _, by simp [QuotePart.meant], rfl⟩
  | short letter c =>
    simp only [QuotePart.isValid, Bool.and_eq_true, isInline_iff, beq_iff_eq] at h
    obtain ⟨⟨_, hbreak⟩, hletter⟩ := h
    rw [QuotePart.chars, List.cons_append, List.cons_append, List.nil_append,
      doubleFrom_short p _ done _ letter c hbreak hletter, Gap.text_spaces]
    exact ⟨p.skip 2, [], c :: (g.reverse ++ done), Nat.succ_pos _, by simp [QuotePart.meant], rfl⟩
  | code letter digits c =>
    simp only [QuotePart.isValid, Bool.and_eq_true, beq_iff_eq] at h
    obtain ⟨⟨_, hletter⟩, hvalue⟩ := h
    have hne : digits ≠ [] := by
      rintro rfl
      exact (escapeDigits?_eq_some hletter).2.2 rfl
    rw [QuotePart.chars, List.cons_append, List.cons_append,
      doubleFrom_code p _ done _ letter _ hletter, Gap.text_spaces]
    obtain ⟨q, hq, hdigits⟩ := doubleFrom_digits rest c digits (p.skip 2) {} 0 (g.reverse ++ done)
      hne hvalue
    exact ⟨q, [], c :: (g.reverse ++ done), hq, by simp [QuotePart.meant], hdigits⟩

theorem doubleFrom_parts (rest : List Char) (parts : List QuotePart)
    (h : parts.all QuotePart.isValid = true) (p : Pos) (hp : 0 < p.column) (g done : List Char) :
    ∃ q, doubleFrom .text p { spaces := g } done (parts.flatMap QuotePart.chars ++ '"' :: rest)
      = .ok (done.reverse ++ g ++ parts.map QuotePart.meant, ⟨q, rest⟩) := by
  induction parts generalizing p g done with
  | nil =>
    refine ⟨p.next '"', ?_⟩
    rw [List.flatMap_nil, List.nil_append, doubleFrom_quote p _ done rest hp]
    simp [Gap.text_spaces]
  | cons part parts ih =>
    rw [List.all_cons, Bool.and_eq_true] at h
    obtain ⟨r, g', done', hr, hmeant, hpart⟩ := doubleFrom_part part h.1 p hp g done
      (parts.flatMap QuotePart.chars ++ '"' :: rest)
    obtain ⟨q, hq⟩ := ih h.2 r hr g' done'
    refine ⟨q, ?_⟩
    rw [List.flatMap_cons, List.append_assoc, hpart, hq, hmeant, List.map_cons, List.append_assoc,
      List.singleton_append]

end Netlab.Yaml
