import Netlab.Proofs.Yaml.Scalars

/-!
# Between the lines of a text in block style

Behind the content of a line come spaces, a line end, blank lines and the indentation of the next
line.  The reader of tokens skips them (`faces_of_ends`), and the reader of a plain scalar stops
behind them when the next line is not indented further than the block is (`plainFrom_of_ends`).
-/

namespace Netlab.Yaml

open Layout (skipGapFrom startsPlain)

/-! ## what lines start with -/

/-- whether the content of a line can start with the character -/
def startsContent (c : Char) : Bool := !isGap c && c != '#' && c != '\ufeff'

theorem startsContent_iff (c : Char) : startsContent c = true ↔
    isSpace c = false ∧ isBreak c = false ∧ c ≠ '#' ∧ c ≠ '\ufeff' := by
  simp only [startsContent, isGap, Bool.not_or, Bool.and_eq_true, Bool.not_eq_true', bne_iff_ne,
    and_assoc]

theorem startsPlain_not_isGap (c : Char) (cs : List Char)
    (h : startsPlain false c cs = true) : isGap c = false ∧ c ≠ '#' := by
  unfold startsPlain at h
  split at h
  · next hc =>
    rw [beq_iff_eq] at hc
    subst hc
    decide
  · split at h
    · next hc =>
      rw [Bool.or_eq_true, beq_iff_eq, beq_iff_eq] at hc
      rcases hc with rfl | rfl <;> decide
    · rw [Bool.and_eq_true, Bool.not_eq_true', Bool.not_eq_true'] at h
      refine ⟨h.1, ?_⟩
      rintro rfl
      exact absurd h.2 (by decide)

theorem exists_of_isPlain {behind cs : List Char} (h : isPlain behind cs = true) :
    ∃ c cs', cs = c :: cs' ∧ startsContent c = true := by
  cases cs with
  | nil => cases h
  | cons c cs =>
    simp only [isPlain, Bool.and_eq_true, bne_iff_ne] at h
    obtain ⟨⟨⟨⟨hstarts, _⟩, _⟩, hmark⟩, _⟩ := h
    obtain ⟨hgap, hsign⟩ := startsPlain_not_isGap c _ hstarts
    refine ⟨c, cs, rfl, ?_⟩
    rw [startsContent, hgap, bne_iff_ne.mpr hsign, bne_iff_ne.mpr hmark]
    rfl

theorem Scalar.exists_chars (s : Scalar) : ∃ c cs, s.chars = c :: cs ∧ startsContent c = true := by
  cases s with
  | plain cs h => exact exists_of_isPlain h
  | single text h => exact ⟨'\'', _, rfl, by decide⟩
  | double parts h => exact ⟨'"', _, rfl, by decide⟩

theorem Body.exists_chars (b : Body) : ∃ c cs, b.chars = c :: cs ∧ startsContent c = true := by
  have hword (k : Word) (more : List Char) :
      ∃ c cs, k.chars ++ more = c :: cs ∧ startsContent c = true := by
    obtain ⟨c, cs, hcs, hc⟩ := exists_of_isPlain k.plain
    exact ⟨c, cs ++ more, by rw [hcs, List.cons_append], hc⟩
  cases b with
  | mark => exact ⟨'-', _, rfl, by decide⟩
  | dash => exact ⟨'-', _, rfl, by decide⟩
  | scalar s => exact s.exists_chars
  | key k => exact hword k _
  | pair k gap s => exact hword k _

theorem Line.exists_content (l : Line) : ∃ c cs, l.content = c :: cs ∧ startsContent c = true := by
  rw [Line.content]
  cases l.lead.dashes with
  | nil => exact l.body.exists_chars
  | cons gap dashes => exact ⟨'-', _, rfl, by decide⟩

/-! ## what lines consist of -/

theorem isInline_of_isPlainRest {behind cs : List Char} (h : isPlainRest behind cs = true) :
    cs.all isInline = true := by
  induction cs with
  | nil => rfl
  | cons c cs ih =>
    simp only [isPlainRest, Bool.and_eq_true] at h
    rw [List.all_cons, h.1.1.1, ih h.2]
    rfl

theorem isInline_of_isPlain {behind cs : List Char} (h : isPlain behind cs = true) :
    cs.all isInline = true := by
  cases cs with
  | nil => cases h
  | cons c cs =>
    rw [isPlain, Bool.and_eq_true] at h
    exact isInline_of_isPlainRest h.2

theorem QuotePart.isInline_chars (part : QuotePart) (h : part.isValid = true) :
    part.chars.all isInline = true := by
  cases part with
  | raw c =>
    simp only [isValid, Bool.and_eq_true] at h
    simp [chars, h.1.1]
  | short letter c =>
    rw [isValid, Bool.and_eq_true] at h
    simp [chars, h.1, show isInline '\\' = true by decide]
  | code letter digits c =>
    simp only [isValid, Bool.and_eq_true, beq_iff_eq] at h
    have hletter : isInline letter = true := by
      have hdigits := h.1.2
      unfold escapeDigits? at hdigits
      split at hdigits <;> first | cases hdigits | decide
    simp [chars, hletter, h.1.1, show isInline '\\' = true by decide]

theorem Scalar.isInline_chars (s : Scalar) : s.chars.all isInline = true := by
  have hquotes : isInline '\'' = true ∧ isInline '"' = true := by decide
  cases s with
  | plain cs h => exact isInline_of_isPlain h
  | single text h =>
    have hquoted : (text.flatMap singleQuoted).all isInline = true := by
      rw [List.all_flatMap, List.all_eq_true]
      intro c hc
      unfold singleQuoted
      split
      · decide
      · simpa using List.all_eq_true.mp h c hc
    simp [chars, hquotes.1, hquoted]
  | double parts h =>
    have hparts : (parts.flatMap QuotePart.chars).all isInline = true := by
      rw [List.all_flatMap, List.all_eq_true]
      exact fun part hpart => part.isInline_chars (List.all_eq_true.mp h part hpart)
    simp [chars, hquotes.2, hparts]

theorem isInline_spaces (n : Nat) : (spaces n).all isInline = true := by
  rw [spaces, List.all_replicate]
  split
  · rfl
  · decide

theorem Body.isInline_chars (b : Body) : b.chars.all isInline = true := by
  have hcolon : isInline ':' = true := by decide
  cases b with
  | mark => decide
  | dash => decide
  | scalar s => exact s.isInline_chars
  | key k => simp [chars, isInline_of_isPlain k.plain, hcolon]
  | pair k gap s => simp [chars, isInline_of_isPlain k.plain, hcolon, isInline_spaces,
      s.isInline_chars]

theorem Line.isInline_chars (l : Line) : l.chars.all isInline = true := by
  have hdashes : (l.lead.dashes.flatMap dashChars).all isInline = true := by
    rw [List.all_flatMap, List.all_eq_true]
    intro gap _
    simp [dashChars, isInline_spaces, show isInline '-' = true by decide]
  simp [chars, content, isInline_spaces, hdashes, l.body.isInline_chars]

theorem Written.isAllowed {ls : List Line} {cs : List Char} (h : Written ls cs) :
    cs.all isAllowed = true := by
  have hinline (cs : List Char) (h : cs.all isInline = true) : cs.all Yaml.isAllowed = true := by
    rw [List.all_eq_true] at h ⊢
    exact fun c hc => ((isInline_iff c).mp (h c hc)).1
  have hend (e : LineEnd) : e.chars.all Yaml.isAllowed = true := by
    cases e <;> decide
  induction h with
  | done n => exact hinline _ (isInline_spaces n)
  | last l => exact hinline _ l.isInline_chars
  | blank n e h ih =>
    rw [List.all_append, List.all_append, hinline _ (isInline_spaces n), hend, ih]
    rfl
  | line l e h ih =>
    rw [List.all_append, List.all_append, hinline _ l.isInline_chars, hend, ih]
    rfl

/-! ## over gaps -/

theorem Pos.skip_skip (p : Pos) (m n : Nat) : (p.skip m).skip n = p.skip (m + n) := by
  simp only [Pos.skip, Nat.add_assoc]

theorem skipGapFrom_space (allowed : Bool) (p : Pos) (cs : List Char) :
    skipGapFrom false allowed false p (' ' :: cs)
      = skipGapFrom false allowed false (p.skip 1) cs := by
  rw [skipGapFrom]
  · simp only [show isBreak ' ' = false by decide]
    simp
    rfl
  · exact fun _ h => absurd h (by decide)

theorem skipGapFrom_spaces (allowed : Bool) (n : Nat) (p : Pos) (cs : List Char) :
    skipGapFrom false allowed false p (spaces n ++ cs)
      = skipGapFrom false allowed false (p.skip n) cs := by
  induction n generalizing p with
  | zero => rfl
  | succ n ih =>
    rw [spaces, List.replicate_succ, List.cons_append, skipGapFrom_space, ← spaces, ih,
      Pos.skip_skip, Nat.add_comm]

theorem skipGapFrom_lineEnd (allowed : Bool) (p : Pos) (e : LineEnd) (cs : List Char) :
    skipGapFrom false allowed false p (e.chars ++ cs)
      = skipGapFrom false true false p.newline cs := by
  cases e with
  | feed =>
    rw [LineEnd.chars, List.singleton_append, skipGapFrom]
    · simp [show isBreak '\n' = true by decide]
    · exact fun _ h => absurd h (by decide)
  | returnFeed =>
    rw [LineEnd.chars, List.cons_append, List.cons_append, List.nil_append, skipGapFrom]
    simp

theorem skipGapFrom_content (allowed : Bool) (p : Pos) (c : Char) (cs : List Char)
    (hc : startsContent c = true) :
    skipGapFrom false allowed false p (c :: cs) = (allowed, ⟨p, c :: cs⟩) := by
  obtain ⟨hspace, hbreak, hsign, hmark⟩ := (startsContent_iff c).mp hc
  rw [isSpace, Bool.or_eq_false_iff] at hspace
  rw [skipGapFrom]
  · simp [hbreak, hsign, hmark, hspace]
  · rintro cs' rfl
    exact absurd rfl (ne_return_of_not_isBreak hbreak)

theorem skipGapFrom_length (inFlow allowed comment : Bool) (p : Pos) (cs : List Char) :
    (skipGapFrom inFlow allowed comment p cs).2.rest.length ≤ cs.length := by
  fun_induction skipGapFrom inFlow allowed comment p cs <;> grind

/-! ## up to the next line -/

/-- what comes behind the content of a line that has the lines `ls` below it -/
def Ends (ls : List Line) (cs : List Char) : Prop :=
  (ls = [] ∧ ∃ n, cs = spaces n) ∨
    ∃ n e cs', cs = spaces n ++ (LineEnd.chars e ++ cs') ∧ Written ls cs'

/-- a place in front of the lines `ls`, where a key may stand -/
def Faces : List Line → Bool × Cursor → Prop
  | [], r => r.2.rest = []
  | l :: ls, r => ∃ p cs, r = (true, ⟨p, l.content ++ cs⟩) ∧ p.column = l.lead.indent ∧ Ends ls cs

theorem skipGapFrom_line (allowed : Bool) (p : Pos) (l : Line) (cs : List Char) :
    skipGapFrom false allowed false p (spaces l.lead.indent ++ (l.content ++ cs))
      = (allowed, ⟨p.skip l.lead.indent, l.content ++ cs⟩) := by
  obtain ⟨c, cs', hcontent, hc⟩ := l.exists_content
  rw [skipGapFrom_spaces, hcontent, List.cons_append, skipGapFrom_content allowed _ c _ hc]

theorem faces_of_written {ls : List Line} {cs : List Char} (h : Written ls cs) (p : Pos)
    (hp : p.column = 0) : Faces ls (skipGapFrom false true false p cs) := by
  have hcolumn (n : Nat) : (p.skip n).column = n := by
    rw [Pos.skip, hp, Nat.zero_add]
  induction h generalizing p with
  | done n =>
    rw [← List.append_nil (spaces n), skipGapFrom_spaces]
    rfl
  | last l =>
    rw [Line.chars, skipGapFrom_line]
    exact ⟨_, _, rfl, hcolumn _, Or.inl ⟨rfl, _, rfl⟩⟩
  | blank n e h ih =>
    rw [skipGapFrom_spaces, skipGapFrom_lineEnd]
    exact ih (p.skip n).newline rfl fun m => Nat.zero_add m
  | line l e h ih =>
    rw [Line.chars, List.append_assoc, List.append_assoc, skipGapFrom_line]
    exact ⟨_, _, rfl, hcolumn _, Or.inr ⟨_, e, _, rfl, h⟩⟩

/-- the gap behind the content of a line leads to the next one -/
theorem faces_of_ends {ls : List Line} {cs : List Char} (h : Ends ls cs) (allowed : Bool)
    (p : Pos) :
    Faces ls (skipGapFrom false allowed false p cs) := by
  rcases h with ⟨rfl, n, rfl⟩ | ⟨n, e, cs', rfl, h⟩
  · rw [← List.append_nil (spaces n), skipGapFrom_spaces]
    rfl
  · rw [skipGapFrom_spaces, skipGapFrom_lineEnd]
    exact faces_of_written h _ rfl

theorem startsGap_of_ends {ls : List Line} {cs : List Char} (h : Ends ls cs) :
    startsGap cs = true := by
  have hspaces (n : Nat) (cs : List Char) (h : startsGap cs = true) :
      startsGap (spaces n ++ cs) = true := by
    cases n with
    | zero => exact h
    | succ n => rfl
  rcases h with ⟨rfl, n, rfl⟩ | ⟨n, e, cs', rfl, h⟩
  · rw [← List.append_nil (spaces n)]
    exact hspaces n [] rfl
  · refine hspaces n _ ?_
    cases e <;> rfl

/-! ## behind plain scalars -/

section
variable (indent : Nat)

theorem plainFrom_spaces_broken (n : Nat) (p : Pos) (gap : Gap) (hgap : gap.broken = true)
    (done cs : List Char) : plainFrom false indent p gap done (spaces n ++ cs)
      = plainFrom false indent (p.skip n) gap done cs := by
  induction n generalizing p with
  | zero => rfl
  | succ n ih =>
    have hspace : gap.addSpace ' ' = gap := by
      rw [Gap.addSpace, if_pos hgap]
    rw [spaces, List.replicate_succ, List.cons_append, plainFrom_cons _ _ _ _ _ _ (by decide),
      if_pos (by decide), if_neg (by simp), hspace, ← spaces, ih]
    rw [show p.next ' ' = p.skip 1 from rfl, Pos.skip_skip, Nat.add_comm]

theorem plainFrom_spaces (n : Nat) (p : Pos) (g : List Char) (done cs : List Char) :
    plainFrom false indent p { spaces := g } done (spaces n ++ cs)
      = plainFrom false indent (p.skip n) { spaces := g ++ spaces n } done cs := by
  induction n generalizing p g with
  | zero =>
    rw [show spaces 0 = [] from rfl, List.append_nil]
    rfl
  | succ n ih =>
    have hspaces : spaces (n + 1) = ' ' :: spaces n := rfl
    rw [hspaces, List.cons_append, plainFrom_cons _ _ _ _ _ _ (by decide), if_pos (by decide),
      if_neg (by simp), Gap.addSpace_spaces, ih, List.append_assoc, List.singleton_append]
    rw [show p.next ' ' = p.skip 1 from rfl, Pos.skip_skip, Nat.add_comm]

theorem plainFrom_lineEnd (p : Pos) (gap : Gap) (done : List Char) (e : LineEnd) (cs : List Char) :
    ∃ gap', gap'.broken = true ∧ plainFrom false indent p gap done (e.chars ++ cs)
      = plainFrom false indent p.newline gap' done cs := by
  have hbroken (c : Char) : (gap.addBreak c).broken = true := by
    unfold Gap.addBreak
    split
    · assumption
    · rfl
  cases e with
  | feed =>
    refine ⟨gap.addBreak '\n', hbroken _, ?_⟩
    rw [LineEnd.chars, List.singleton_append, plainFrom]
    · simp [show isBreak '\n' = true by decide]
    · exact fun _ h => absurd h (by decide)
  | returnFeed =>
    refine ⟨gap.addBreak '\n', hbroken _, ?_⟩
    rw [LineEnd.chars, List.cons_append, List.cons_append, List.nil_append, plainFrom]

/-- a plain scalar stops at a line that is indented too little -/
theorem plainFrom_line (p : Pos) (gap : Gap) (hgap : gap.broken = true) (done : List Char)
    (l : Line) (hl : (p.skip l.lead.indent).column < indent) (cs : List Char) :
    plainFrom false indent p gap done (spaces l.lead.indent ++ (l.content ++ cs))
      = .ok ⟨done.reverse, true, ⟨p.skip l.lead.indent, l.content ++ cs⟩⟩ := by
  obtain ⟨c, cs', hcontent, hc⟩ := l.exists_content
  obtain ⟨hspace, hbreak, _, _⟩ := (startsContent_iff c).mp hc
  rw [plainFrom_spaces_broken indent _ p gap hgap, hcontent, List.cons_append,
    plainFrom_cons _ _ _ _ _ _ hbreak, hspace, if_neg Bool.false_ne_true, if_pos, hgap]
  simp [Gap.isEmpty, hgap, hl]

theorem plainFrom_of_written {ls : List Line} {cs : List Char} (h : Written ls cs)
    (hls : ∀ l ∈ ls.head?, l.lead.indent < indent) (p : Pos) (hp : p.column = 0) (gap : Gap)
    (hgap : gap.broken = true) (done : List Char) :
    plainFrom false indent p gap done cs
      = .ok ⟨done.reverse, true, (skipGapFrom false true false p cs).2⟩ := by
  have hcolumn (l : Line) (hl : l.lead.indent < indent) :
      (p.skip l.lead.indent).column < indent := by
    rwa [Pos.skip, hp, Nat.zero_add]
  induction h generalizing p gap with
  | done n =>
    rw [← List.append_nil (spaces n), plainFrom_spaces_broken indent n p gap hgap,
      skipGapFrom_spaces, plainFrom, hgap]
    rfl
  | last l =>
    rw [Line.chars, plainFrom_line indent p gap hgap done l (hcolumn l (hls l rfl)),
      skipGapFrom_line]
  | blank n e h ih =>
    obtain ⟨gap', hgap', heq⟩ := plainFrom_lineEnd indent (p.skip n) gap done e _
    rw [plainFrom_spaces_broken indent n p gap hgap, heq, skipGapFrom_spaces, skipGapFrom_lineEnd]
    -- a blank line is part of the gap, however far its spaces reach
    refine ih hls (p.skip n).newline rfl gap' hgap' fun l hl => ?_
    rw [Pos.skip]
    show 0 + l.lead.indent < indent
    omega
  | line l e h ih =>
    rw [Line.chars, List.append_assoc, List.append_assoc,
      plainFrom_line indent p gap hgap done l (hcolumn l (hls l rfl)), skipGapFrom_line]

/-- A plain scalar stops behind the gap after it when the next line is not indented far enough to
carry it on. -/
theorem plainFrom_of_ends {ls : List Line} {cs : List Char} (h : Ends ls cs)
    (hls : ∀ l ∈ ls.head?, l.lead.indent < indent) (p : Pos) (done : List Char) :
    ∃ broken c, plainFrom false indent p {} done cs = .ok ⟨done.reverse, broken, c⟩ ∧
      c.rest.length ≤ cs.length ∧ Faces ls (skipGapFrom false broken false c.pos c.rest) := by
  rcases h with ⟨rfl, n, rfl⟩ | ⟨n, e, cs', rfl, h⟩
  · refine ⟨false, ⟨p.skip n, []⟩, ?_, Nat.zero_le _, rfl⟩
    rw [← List.append_nil (spaces n), Gap.empty_eq, plainFrom_spaces,
      plainFrom]
  · have hfaces := faces_of_written h (p.skip n).newline rfl
    obtain ⟨gap, hgap, heq⟩ := plainFrom_lineEnd indent (p.skip n) { spaces := spaces n } done e cs'
    refine ⟨true, (skipGapFrom false true false (p.skip n).newline cs').2, ?_, ?_, ?_⟩
    · rw [Gap.empty_eq, plainFrom_spaces, List.nil_append, heq,
        plainFrom_of_written indent h hls _ rfl gap hgap]
    · have hlength := skipGapFrom_length false true false (p.skip n).newline cs'
      rw [List.length_append, List.length_append]
      omega
    · -- nothing is left to skip
      cases ls with
      | nil =>
        have hrest : (skipGapFrom false true false (p.skip n).newline cs').2.rest = [] := hfaces
        rw [hrest]
        rfl
      | cons l ls =>
        obtain ⟨q, cs, hq, hrest⟩ := hfaces
        obtain ⟨c, cs', hcontent, hc⟩ := l.exists_content
        rw [hq]
        refine ⟨q, cs, ?_, hrest⟩
        rw [hcontent, List.cons_append, skipGapFrom_content true q c _ hc]

end

end Netlab.Yaml
