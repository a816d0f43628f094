import Netlab.Proofs.Shell.Reader

/-!
# Words written without quotes

Words put behind each other with spaces, and without quotes, are read back as these words exactly
if none of them needs quotes (`Reader.read_unquoted_iff`).

That a word in need of quotes is not read back is a matter of counting.  A character of the text is
taken into a word, or it ends one, or it is spent for something else: to quote, to start a comment
or a variable, or as one more space.  So what is read grows by at most one with each character
(`Reader.feed_size_le`), and a text of words with single spaces is just as long as these words need.
If it is read as them, no character has been spent for anything else, and such a reading meets none
but words that need no quotes (`Tight`).
-/

namespace Netlab.Shell

/-! ## sizes -/

/-- the number of characters that words take, with one behind each -/
def wordsSize {α : Type} (ws : List (List α)) : Nat := ws.flatten.length + ws.length

theorem wordsSize_append {α : Type} (a b : List (List α)) :
    wordsSize (a ++ b) = wordsSize a + wordsSize b := by
  simp only [wordsSize, List.flatten_append, List.length_append]
  omega

theorem wordsSize_singleton {α : Type} (w : List α) : wordsSize [w] = w.length + 1 := by
  rw [wordsSize, List.flatten_singleton, List.length_singleton]

theorem wordsSize_literal (w : String) (ws : List String) :
    wordsSize ((w :: ws).map literal) = (" ".intercalate (w :: ws)).toList.length + 1 := by
  induction ws generalizing w with
  | nil => rw [List.map_singleton, wordsSize_singleton, literal, List.length_map]; rfl
  | cons w' ws ih =>
    rw [List.map_cons, ← List.singleton_append, wordsSize_append, ih, wordsSize_singleton, literal,
      List.length_map, String.intercalate_cons_cons, String.toList_append, String.toList_append,
      List.length_append, List.length_append]
    show _ = w.toList.length + 1 + _ + 1
    omega

/-- what is kept for a word besides the characters in it: a variable, once its name has begun -/
def Mode.pending : Mode → Nat
  | .name (_ :: _) => 1
  | _ => 0

theorem pending_name {read : List Char} (h : read ≠ []) : (Mode.name read).pending = 1 := by
  cases read with
  | nil => exact absurd rfl h
  | cons => rfl

namespace Reader

/-- the words read so far, of all lines -/
def words (r : Reader) : List (List Part) := r.lines.flatten ++ r.line

/-- how much is read: the finished words with a character behind each, and what is open -/
def size (r : Reader) : Nat := wordsSize r.words + (r.word.getD []).length + r.mode.pending

theorem words_endWord (r : Reader) : r.endWord.words = r.words ++ r.word.toList :=
  (List.append_assoc ..).symm

theorem words_endLine (r : Reader) : r.endLine.words = r.words ++ r.word.toList := by
  have hline : (if r.endWord.line = [] then [] else [r.endWord.line]).flatten = r.endWord.line := by
    split
    · next hnil => rw [hnil, List.flatten_nil]
    · exact List.flatten_singleton
  rw [words, endLine, List.append_nil, List.flatten_append, hline, words, List.append_assoc]
  rfl

theorem size_add (r : Reader) (p : Part) : (r.add p).size = r.size + 1 := by
  show wordsSize r.words + (r.word.getD [] ++ [p]).length + r.mode.pending = _
  rw [size, List.length_append, List.length_singleton]
  omega

/-- a word that ends gains the character behind it -/
theorem wordsSize_toList_le (w : Option (List Part)) :
    wordsSize w.toList ≤ (w.getD []).length + 1 := by
  cases w with
  | none => exact Nat.zero_le 1
  | some w => exact Nat.le_of_eq (wordsSize_singleton w)

theorem size_endWord_le (r : Reader) : r.endWord.size ≤ r.size + 1 := by
  have := wordsSize_toList_le r.word
  rw [size, size, words_endWord, wordsSize_append]
  show _ + 0 + r.mode.pending ≤ _
  omega

theorem size_endLine_le (r : Reader) : r.endLine.size ≤ r.size + 1 := by
  have := wordsSize_toList_le r.word
  rw [size, size, words_endLine, wordsSize_append]
  show _ + 0 + r.mode.pending ≤ _
  omega

/-! ## one character -/

/-- What a character outside quotes does: it ends a word, or it is spent, or it is taken into a
word. -/
theorem bareStep_cases {r r' : Reader} {c : Char} (h : r.bareStep c = some r') :
    (r' = r.endLine ∨ r' = r.endWord) ∨
    (∃ mode word, mode.pending = 0 ∧ word.getD [] = r.word.getD [] ∧
      r' = { r with mode := mode, word := word }) ∨
    ((c ≠ '\x00' → isInertChar c = true) ∧ (c = '#' → r.word ≠ none) ∧
      r' = r.add (.char c)) := by
  unfold bareStep at h
  split at h
  case h_1 => exact .inl (.inl (Option.some.inj h).symm)
  case h_2 => exact .inl (.inr (Option.some.inj h).symm)
  case h_3 => exact .inl (.inr (Option.some.inj h).symm)
  case h_4 => exact .inr (.inl ⟨.quoted, some (r.word.getD []), rfl, rfl, (Option.some.inj h).symm⟩)
  case h_5 => exact .inr (.inl ⟨.escaped, r.word, rfl, rfl, (Option.some.inj h).symm⟩)
  case h_6 => exact .inr (.inl ⟨.name [], r.word, rfl, rfl, (Option.some.inj h).symm⟩)
  case h_7 =>
    split at h
    · exact .inr (.inl ⟨.comment, r.word, rfl, rfl, (Option.some.inj h).symm⟩)
    · next hword => exact .inr (.inr ⟨fun _ => rfl, fun _ => hword, (Option.some.inj h).symm⟩)
  case h_8 =>
    split at h
    · cases h
    · next hline hspace htab hquote hslash hdollar hhash hmark =>
      refine .inr (.inr ⟨fun hc => ?_, fun e => absurd e hhash, (Option.some.inj h).symm⟩)
      simpa [isInertChar, hc, hmark] using ⟨hline, hspace, htab, hquote, hslash, hdollar⟩

theorem bareStep_size_le {r r' : Reader} {c : Char} (hr : r.mode = .bare)
    (h : r.bareStep c = some r') : r'.size ≤ r.size + 1 := by
  obtain (rfl | rfl) | ⟨mode, word, hmode, hword, rfl⟩ | ⟨-, -, rfl⟩ := bareStep_cases h
  · exact size_endLine_le r
  · exact size_endWord_le r
  · rw [size, size, hr]
    show wordsSize r.words + (word.getD []).length + mode.pending ≤ _
    rw [hword, hmode]
    exact Nat.le_succ _
  · exact Nat.le_of_eq (size_add r _)

theorem step_size_le {r r' : Reader} {c : Char} (h : r.step c = some r') :
    r'.size ≤ r.size + 1 := by
  obtain ⟨mode, word, line, lines⟩ := r
  cases mode with
  | bare => exact bareStep_size_le rfl h
  | quoted =>
    obtain rfl := Option.some.inj h
    split
    · exact Nat.le_succ _
    · exact Nat.le_of_eq (size_add _ _)
  | escaped =>
    obtain rfl := Option.some.inj h
    split
    · exact Nat.le_succ _
    · exact Nat.le_of_eq (size_add _ _)
  | comment =>
    obtain rfl := Option.some.inj h
    split
    · exact size_endLine_le ⟨.bare, word, line, lines⟩
    · exact Nat.le_succ _
  | name read =>
    simp only [step] at h
    split at h
    · -- the first character of a name counts for the variable, the others are spent
      obtain rfl := Option.some.inj h
      show wordsSize _ + _ + (Mode.name (read ++ [c])).pending ≤ _
      rw [pending_name (List.append_ne_nil_of_right_ne_nil read (List.cons_ne_nil c []))]
      exact Nat.add_le_add_right (Nat.le_add_right ..) 1
    · split at h
      · cases h
      next hread =>
      have := bareStep_size_le rfl h
      rw [size_add] at this
      show _ ≤ wordsSize _ + _ + (Mode.name read).pending + 1
      rw [pending_name hread]
      exact this

/-! ## runs -/

theorem feed_size_le {r r' : Reader} {cs : List Char} (h : feed step r cs = some r') :
    r'.size ≤ r.size + cs.length := by
  induction cs generalizing r with
  | nil => exact Nat.le_of_eq (congrArg size (Option.some.inj h).symm)
  | cons c cs ih =>
    obtain ⟨m, hstep, hrun⟩ := exists_of_feed_cons h
    have hone := step_size_le hstep
    have hrest := ih hrun
    rw [List.length_cons]
    omega

theorem flatten_endLine (r : Reader) : r.endLine.lines.flatten = r.words ++ r.word.toList := by
  rw [← words_endLine]
  exact (List.append_nil _).symm

theorem endLine_size_le (r : Reader) :
    wordsSize r.endLine.lines.flatten + r.mode.pending ≤ r.size + 1 := by
  have := wordsSize_toList_le r.word
  rw [flatten_endLine, wordsSize_append, size]
  omega

theorem finish_size_le {r : Reader} {lines : List (List (List Part))} (h : r.finish = some lines) :
    wordsSize lines.flatten ≤ r.size + 1 := by
  obtain ⟨mode, word, line, lines'⟩ := r
  cases mode with
  | bare =>
    obtain rfl := Option.some.inj h
    exact endLine_size_le ⟨.bare, word, line, lines'⟩
  | comment =>
    obtain rfl := Option.some.inj h
    exact endLine_size_le ⟨.comment, word, line, lines'⟩
  | quoted => cases h
  | escaped => cases h
  | name read =>
    cases read with
    | nil => cases h
    | cons c cs =>
      obtain rfl := Option.some.inj h
      have hend := endLine_size_le
        (add ⟨.name (c :: cs), word, line, lines'⟩ (.ref (.ofList (c :: cs))))
      rw [size_add] at hend
      exact Nat.le_of_add_le_add_right hend

/-! ## readings that spend no character -/

/-- a word that needs no quotes, as it is read -/
def InertWord (w : List Part) : Prop := ∃ cs, isInert cs = true ∧ w = cs.map .char

theorem InertWord.add {word : Option (List Part)} {c : Char} (hword : ∀ w ∈ word, InertWord w)
    (hc : isInertChar c = true) (hhash : c = '#' → word ≠ none) :
    InertWord (word.getD [] ++ [.char c]) := by
  cases word with
  | none =>
    have hfront : c ≠ '#' := fun e => hhash e rfl
    exact ⟨[c], by simp [isInert, hc, hfront], rfl⟩
  | some w =>
    obtain ⟨cs, hcs, rfl⟩ := hword w rfl
    refine ⟨cs ++ [c], ?_, by rw [Option.getD_some, List.map_append, List.map_singleton]⟩
    cases cs with
    | nil => cases hcs
    | cons d ds => simpa [isInert, hc, and_assoc] using hcs

/-- No character has been spent since the words `front` were read: nothing is open but a word, and
all words since need no quotes. -/
structure Tight (front : List (List Part)) (r : Reader) : Prop where
  bare : r.mode = .bare
  inert : ∃ ws, r.words = front ++ ws ∧ ∀ w ∈ ws ++ r.word.toList, InertWord w

/-- the word that is being read, ended -/
theorem Tight.ended {front : List (List Part)} {r r' : Reader} (ht : Tight front r)
    (hmode : r'.mode = r.mode) (hwords : r'.words = r.words ++ r.word.toList)
    (hword : r'.word = none) : Tight front r' := by
  obtain ⟨hbare, ws, hws, hinert⟩ := ht
  refine ⟨hmode.trans hbare, ws ++ r.word.toList, ?_, ?_⟩
  · rw [hwords, hws, List.append_assoc]
  · rwa [hword, Option.toList_none, List.append_nil]

theorem Tight.step {front : List (List Part)} {r r' : Reader} {c : Char} (ht : Tight front r)
    (hc : c ≠ '\x00') (h : r.step c = some r') (hsize : r.size + 1 ≤ r'.size) :
    Tight front r' := by
  rw [Reader.step, ht.bare] at h
  obtain (rfl | rfl) | ⟨mode, word, hmode, hsame, rfl⟩ | ⟨hinert, hhash, rfl⟩ := bareStep_cases h
  · exact ht.ended rfl (words_endLine r) rfl
  · exact ht.ended rfl (words_endWord r) rfl
  · exfalso
    have hspent : size { r with mode := mode, word := word } = r.size := by
      rw [size, size, ht.bare]
      show wordsSize r.words + (word.getD []).length + mode.pending = _
      rw [hsame, hmode]
      rfl
    omega
  · obtain ⟨hbare, ws, hws, hwords⟩ := ht
    rw [List.forall_mem_append] at hwords
    refine ⟨hbare, ws, hws, List.forall_mem_append.mpr ⟨hwords.1, fun w hw => ?_⟩⟩
    obtain rfl := List.mem_singleton.mp hw
    exact InertWord.add (fun w hw => hwords.2 w (Option.mem_toList.mpr hw)) (hinert hc) hhash

theorem Tight.run {front : List (List Part)} {r r' : Reader} {cs : List Char} (ht : Tight front r)
    (hcs : '\x00' ∉ cs) (h : feed Reader.step r cs = some r')
    (hsize : r.size + cs.length ≤ r'.size) : Tight front r' := by
  induction cs generalizing r with
  | nil => exact Option.some.inj h ▸ ht
  | cons c cs ih =>
    rw [List.mem_cons, not_or] at hcs
    obtain ⟨m, hstep, hrun⟩ := exists_of_feed_cons h
    have hone := step_size_le hstep
    have hrest := feed_size_le hrun
    rw [List.length_cons] at hsize
    exact ih (ht.step (Ne.symm hcs.1) hstep (by omega)) hcs.2 hrun (by omega)

/-! ## unquoted words -/

variable (front : List (List Part))

theorem read_unquoted (hfront : front ≠ []) (ws : List String)
    (hws : ∀ w ∈ ws, isInert w.toList = true) :
    read? ⟨.bare, none, front, []⟩ (" ".intercalate ws).toList
      = some [front ++ ws.map literal] := by
  cases ws with
  | nil =>
    show some (endLine ⟨.bare, none, front, []⟩).lines = _
    simp [endLine, endWord, hfront]
  | cons w ws =>
    obtain ⟨r, hr, hmode, hend⟩ := feed_intercalate front [] id w ws fun x hx line =>
      feed_isInert line [] x.toList (hws x hx)
    rw [List.map_id] at hr
    have hlines : r.endLine.lines = [front ++ (w :: ws).map literal] := by
      rw [← endLine_endWord, hend]
      simp [endLine, endWord]
    rw [read?, hr, Option.bind_some, finish, hmode]
    exact congrArg some hlines

theorem inert_of_read_unquoted (ws : List String) (hnul : '\x00' ∉ (" ".intercalate ws).toList)
    (h : read? ⟨.bare, none, front, []⟩ (" ".intercalate ws).toList
      = some [front ++ ws.map literal]) : ∀ w ∈ ws, isInert w.toList = true := by
  cases ws with
  | nil => exact fun w hw => absurd hw List.not_mem_nil
  | cons w ws =>
    obtain ⟨r, hrun, hfinish⟩ := Option.bind_eq_some_iff.mp h
    have hread := finish_size_le hfinish
    rw [List.flatten_singleton, wordsSize_append, wordsSize_literal] at hread
    have hstart : Tight front ⟨.bare, none, front, []⟩ :=
      ⟨rfl, [], (List.append_nil front).symm, fun w hw => absurd hw List.not_mem_nil⟩
    obtain ⟨hbare, ws', hwords, hinert⟩ := hstart.run hnul hrun (Nat.le_of_succ_le_succ hread)
    have hall : ws' ++ r.word.toList = (w :: ws).map literal := by
      rw [finish, hbare] at hfinish
      have hflat := flatten_endLine r
      rw [Option.some.inj hfinish, List.flatten_singleton, hwords, List.append_assoc] at hflat
      exact (List.append_cancel_left hflat).symm
    intro x hx
    obtain ⟨cs, hcs, heq⟩ := hinert (literal x) (hall ▸ List.mem_map_of_mem hx)
    rwa [List.map_injective_iff.mpr (fun _ _ => Part.char.inj) heq]

/-- Words behind `front`, written without quotes, are read back as they are if each is a word that
needs no quotes, and only then. -/
theorem read_unquoted_iff (hfront : front ≠ []) (ws : List String)
    (hnul : '\x00' ∉ (" ".intercalate ws).toList) :
    read? ⟨.bare, none, front, []⟩ (" ".intercalate ws).toList
      = some [front ++ ws.map literal] ↔ ∀ w ∈ ws, isInert w.toList = true :=
  ⟨inert_of_read_unquoted front ws hnul, read_unquoted front hfront ws⟩

end Reader

end Netlab.Shell
