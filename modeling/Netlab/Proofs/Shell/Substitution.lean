import Netlab.Link.Basic
import Netlab.Proofs.Shell.Reader

/-!
# Assignments from a command substitution

Between backquotes a text is quoted once more: a backslash in front of a dollar sign, a backquote
or a backslash is taken away before the text is read, whatever quotes it stands in, and the first
backquote left ends the substitution.  A word quoted for a command line does not allow for that.

* `assignment?`              an assignment of the output of a substitution, read;
* `stripped?`                what becomes of a quoted word between backquotes;
* `backquoted?_quoteBody_of_some`, `backquoted?_quoteBody_of_none`   that it does become that;
* `stripped?_eq_self_iff`    the words that stay what they are.
-/

namespace Netlab.Shell

/-! ## reading -/

/-- the characters that a backslash takes effect on between backquotes -/
def backquoteMarks : List Char := ['$', '`', '\\']

/-- what is left between backquotes of a backslash and the character behind it -/
def unescaped (c : Char) : List Char := if c ∈ backquoteMarks then [c] else ['\\', c]

/-- the text that a substitution runs and the text behind its closing backquote, from the opening
one on -/
def backquoted? : List Char → Option (List Char × List Char)
  | '\\' :: c :: text => (backquoted? text).map fun (inner, rest) => (unescaped c ++ inner, rest)
  | '`' :: text => some ([], text)
  | c :: text => (backquoted? text).map fun (inner, rest) => (c :: inner, rest)
  | [] => none

/-- whether a text is the name of a variable -/
def isName (cs : List Char) : Bool :=
  match cs with
  | [] => false
  | c :: cs => continuesName [] c && cs.all (continuesName [c])

/-- A line that assigns the output of a substitution to a variable and does nothing else: the
variable, and the program calls whose output it gets. -/
def assignment? (env : String → String) (line : String) : Option (String × List (List String)) :=
  match Link.splitAt? '=' line.toList with
  | some (name, '`' :: text) =>
    match backquoted? text with
    | some (inner, []) =>
      if isName name then (calls? env (.ofList inner)).map fun calls => (.ofList name, calls)
      else none
    | _ => none
  | _ => none

theorem backquoted?_escape (c : Char) (text : List Char) :
    backquoted? ('\\' :: c :: text)
      = (backquoted? text).map fun (inner, rest) => (unescaped c ++ inner, rest) := by
  rw [backquoted?]

theorem backquoted?_end (text : List Char) : backquoted? ('`' :: text) = some ([], text) := by
  rw [backquoted?]

theorem backquoted?_cons (c : Char) (text : List Char) (hend : c ≠ '`') (hescape : c ≠ '\\') :
    backquoted? (c :: text)
      = (backquoted? text).map fun (inner, rest) => (c :: inner, rest) := by
  rw [backquoted?]
  · intro d text' e _
    exact hescape e
  · exact hend

theorem backquoted?_append (a text : List Char) (hend : '`' ∉ a) (hescape : '\\' ∉ a) :
    backquoted? (a ++ text) = (backquoted? text).map fun (inner, rest) => (a ++ inner, rest) := by
  induction a with
  | nil => exact Option.map_id'.symm
  | cons c cs ih =>
    rw [List.mem_cons, not_or] at hend hescape
    rw [List.cons_append, backquoted?_cons c _ (Ne.symm hend.1) (Ne.symm hescape.1),
      ih hend.2 hescape.2, Option.map_map]
    rfl

/-! ## quoted words between backquotes -/

/-- What a word becomes that is put between single quotes, and with them between backquotes.  There
is none if a backquote in it ends the substitution. -/
def stripped? : List Char → Option (List Char)
  | [] => some []
  | c :: cs =>
    if c = '`' then none
    else if c = '\\' then
      match cs with
      | [] => some ['\\']
      | d :: cs => (stripped? cs).map (unescaped d ++ ·)
    else (stripped? cs).map (c :: ·)

theorem stripped?_escape (c : Char) (cs : List Char) :
    stripped? ('\\' :: c :: cs) = (stripped? cs).map (unescaped c ++ ·) := rfl

theorem stripped?_end (cs : List Char) : stripped? ('`' :: cs) = none := by
  rw [stripped?.eq_def]
  exact if_pos rfl

theorem stripped?_cons (c : Char) (cs : List Char) (hend : c ≠ '`') (hescape : c ≠ '\\') :
    stripped? (c :: cs) = (stripped? cs).map (c :: ·) := by
  rw [stripped?.eq_def]
  exact (if_neg hend).trans (if_neg hescape)

theorem quoteBody_eq_self (w : List Char) (hw : '\'' ∉ w) : quoteBody w = w := by
  induction w with
  | nil => rfl
  | cons c cs ih =>
    rw [List.mem_cons, not_or] at hw
    rw [quoteBody_cons c cs (Ne.symm hw.1), ih hw.2]

theorem backquoted?_quoteBody_cons (c : Char) (cs text : List Char) (hend : c ≠ '`')
    (hescape : c ≠ '\\') :
    backquoted? (quoteBody (c :: cs) ++ text)
      = (backquoted? (quoteBody cs ++ text)).map
          fun (inner, rest) => (quoteBody [c] ++ inner, rest) := by
  by_cases hc : c = '\''
  · subst hc
    show backquoted? ('\'' :: '\\' :: '\'' :: '\'' :: (quoteBody cs ++ text)) = _
    rw [backquoted?_cons _ _ (by decide) (by decide), backquoted?_escape,
      backquoted?_cons _ _ (by decide) (by decide), Option.map_map, Option.map_map]
    rfl
  · rw [quoteBody_cons c cs hc, quoteBody_cons c [] hc]
    exact backquoted?_cons c (quoteBody cs ++ text) hend hescape

theorem backquoted?_quoteBody_escape (c : Char) (cs text : List Char) :
    backquoted? (quoteBody ('\\' :: c :: cs) ++ text)
      = (backquoted? (quoteBody cs ++ text)).map
          fun (inner, rest) => (quoteBody (unescaped c) ++ inner, rest) := by
  by_cases hc : c = '\''
  · -- the quote stands behind a backslash of its own
    subst hc
    show backquoted? ('\\' :: '\'' :: '\\' :: '\'' :: '\'' :: (quoteBody cs ++ text)) = _
    rw [backquoted?_escape, backquoted?_escape, backquoted?_cons _ _ (by decide) (by decide),
      Option.map_map, Option.map_map]
    rfl
  · have hkept : quoteBody (unescaped c) = unescaped c := by
      rw [unescaped]
      split <;> exact quoteBody_eq_self _ (by simpa using Ne.symm hc)
    rw [quoteBody_cons _ _ (by decide), quoteBody_cons c cs hc, hkept]
    exact backquoted?_escape c (quoteBody cs ++ text)

/-- a word that is stripped is read on to the quote that closes it -/
theorem backquoted?_quoteBody_of_some (w m text : List Char) (hm : stripped? w = some m) :
    backquoted? (quoteBody w ++ '\'' :: text)
      = (backquoted? text).map fun (inner, rest) => (quoteBody m ++ '\'' :: inner, rest) := by
  induction w using stripped?.induct generalizing m with
  | case1 =>
    obtain rfl := Option.some.inj hm
    exact backquoted?_cons '\'' text (by decide) (by decide)
  | case2 cs =>
    rw [stripped?_end] at hm
    cases hm
  | case3 =>
    -- the backslash is kept in front of the quote
    obtain rfl := Option.some.inj hm
    exact backquoted?_escape '\'' text
  | case4 c cs _ ih =>
    rw [stripped?_escape] at hm
    obtain ⟨m', hm', rfl⟩ := Option.map_eq_some_iff.mp hm
    rw [backquoted?_quoteBody_escape, ih m' hm', Option.map_map, quoteBody_append]
    simp only [Function.comp_def, List.append_assoc]
  | case5 c cs hend hescape ih =>
    rw [stripped?_cons c cs hend hescape] at hm
    obtain ⟨m', hm', rfl⟩ := Option.map_eq_some_iff.mp hm
    have hsplit : quoteBody (c :: m') = quoteBody [c] ++ quoteBody m' := quoteBody_append [c] m'
    rw [backquoted?_quoteBody_cons c cs _ hend hescape, ih m' hm', Option.map_map, hsplit]
    simp only [Function.comp_def, List.append_assoc]

theorem backquoted?_quoteBody_of_none (w text : List Char) (hw : stripped? w = none) :
    ∃ inner rest, backquoted? (quoteBody w ++ '\'' :: text) = some (inner, rest) ∧ rest ≠ [] := by
  induction w using stripped?.induct with
  | case1 => cases hw
  | case2 cs =>
    rw [quoteBody_cons _ _ (by decide)]
    exact ⟨[], _, backquoted?_end _, by simp⟩
  | case3 => cases hw
  | case4 c cs _ ih =>
    rw [stripped?_escape, Option.map_eq_none_iff] at hw
    obtain ⟨inner, rest, h, hne⟩ := ih hw
    rw [backquoted?_quoteBody_escape, h]
    exact ⟨_, rest, rfl, hne⟩
  | case5 c cs hend hescape ih =>
    rw [stripped?_cons c cs hend hescape, Option.map_eq_none_iff] at hw
    obtain ⟨inner, rest, h, hne⟩ := ih hw
    rw [backquoted?_quoteBody_cons c cs _ hend hescape, h]
    exact ⟨_, rest, rfl, hne⟩

/-! ## words that stay what they are -/

/-- A word that holds nothing acted upon between backquotes: no backquote, and no backslash in
front of a character that it takes effect on. -/
def Inert (w : List Char) : Prop :=
  '`' ∉ w ∧ ∀ c ∈ backquoteMarks, ¬ ['\\', c] <:+: w

theorem inert_nil : Inert [] := ⟨List.not_mem_nil, fun _ _ h => nomatch List.infix_nil.mp h⟩

theorem inert_cons (c : Char) (cs : List Char) :
    Inert (c :: cs) ↔
      c ≠ '`' ∧ (c = '\\' → ∀ d ∈ cs.head?, d ∉ backquoteMarks) ∧ Inert cs := by
  have hpair (d : Char) : ['\\', d] <:+: c :: cs
      ↔ (c = '\\' ∧ cs.head? = some d) ∨ ['\\', d] <:+: cs := by
    rw [List.infix_cons_iff, List.cons_prefix_cons]
    cases cs with
    | nil => simp
    | cons e cs => simp [eq_comm]
  simp only [Inert, List.mem_cons, not_or, hpair, Option.mem_def]
  constructor
  · rintro ⟨⟨hc, hcs⟩, h⟩
    exact ⟨Ne.symm hc, fun e d hd hmark => (h d hmark).1 ⟨e, hd⟩, hcs, fun d hd => (h d hd).2⟩
  · rintro ⟨hc, hhead, hcs, h⟩
    exact ⟨⟨Ne.symm hc, hcs⟩, fun d hd => ⟨fun ⟨e, he⟩ => hhead e d he hd, h d hd⟩⟩

theorem sublist_of_stripped? (w m : List Char) (hm : stripped? w = some m) : m.Sublist w := by
  induction w using stripped?.induct generalizing m with
  | case1 => rw [← Option.some.inj hm]
  | case2 cs =>
    rw [stripped?_end] at hm
    cases hm
  | case3 => rw [← Option.some.inj hm]
  | case4 c cs _ ih =>
    rw [stripped?_escape] at hm
    obtain ⟨m', hm', rfl⟩ := Option.map_eq_some_iff.mp hm
    have hc : (unescaped c).Sublist ['\\', c] := by
      rw [unescaped]
      split
      · exact List.sublist_cons_self '\\' [c]
      · exact List.Sublist.refl _
    exact hc.append (ih m' hm')
  | case5 c cs hend hescape ih =>
    rw [stripped?_cons c cs hend hescape] at hm
    obtain ⟨m', hm', rfl⟩ := Option.map_eq_some_iff.mp hm
    exact (ih m' hm').cons_cons c

theorem stripped?_eq_self_iff (w : List Char) : stripped? w = some w ↔ Inert w := by
  induction w using stripped?.induct with
  | case1 => exact iff_of_true rfl inert_nil
  | case2 cs =>
    rw [stripped?_end]
    exact iff_of_false nofun fun h => ((inert_cons _ _).mp h).1 rfl
  | case3 => exact iff_of_true rfl ((inert_cons _ _).mpr ⟨by decide, fun _ => nofun, inert_nil⟩)
  | case4 c cs _ ih =>
    rw [stripped?_escape, inert_cons, inert_cons, Option.map_eq_some_iff]
    by_cases hmark : c ∈ backquoteMarks
    · -- the backslash is taken away, and nothing makes up for it
      refine iff_of_false ?_ fun h => h.2.1 rfl c rfl hmark
      rintro ⟨m, hm, heq⟩
      rw [unescaped, if_pos hmark] at heq
      have hlen := congrArg List.length heq
      have hle := (sublist_of_stripped? cs m hm).length_le
      simp only [List.length_append, List.length_cons, List.length_nil] at hlen
      omega
    · rw [unescaped, if_neg hmark]
      have hne : c ≠ '`' ∧ c ≠ '\\' := by
        constructor <;> rintro rfl <;> exact hmark (by decide)
      constructor
      · rintro ⟨m, hm, heq⟩
        obtain rfl : m = cs := by simpa using heq
        exact ⟨by decide, fun _ d hd => Option.some.inj hd ▸ hmark, hne.1,
          fun e => absurd e hne.2, ih.mp hm⟩
      · rintro ⟨_, _, _, _, h⟩
        exact ⟨cs, ih.mpr h, rfl⟩
  | case5 c cs hend hescape ih =>
    rw [stripped?_cons c cs hend hescape, inert_cons, ← ih, Option.map_eq_some_iff]
    constructor
    · rintro ⟨m, hm, heq⟩
      rw [(List.cons.inj heq).2] at hm
      exact ⟨hend, fun e => absurd e hescape, hm⟩
    · exact fun ⟨_, _, h⟩ => ⟨cs, h, rfl⟩

instance (w : List Char) : Decidable (Inert w) := decidable_of_iff _ (stripped?_eq_self_iff w)

theorem not_mem_of_plain (w : List Char) (hw : w.all isPlainChar = true) (c : Char)
    (hc : isPlainChar c = false) : c ∉ w := fun hmem => by
  rw [List.all_eq_true.mp hw c hmem] at hc
  cases hc

theorem inert_of_plain (w : List Char) (hw : w.all isPlainChar = true) : Inert w :=
  ⟨not_mem_of_plain w hw _ (by decide), fun _ _ hpair =>
    not_mem_of_plain w hw '\\' (by decide) (hpair.subset (List.mem_cons_self ..))⟩

/-! ## words written between backquotes -/

/-- The text that a word is written as stands between backquotes for the stripped word. -/
theorem exists_written (w m : List Char) (hm : stripped? w = some m) :
    ∃ written,
      (∀ text, backquoted? (quoteChars w ++ text)
        = (backquoted? text).map fun (inner, rest) => (written ++ inner, rest)) ∧
      (∀ line lines, feed Reader.step ⟨.bare, none, line, lines⟩ written
        = some ⟨.bare, some (m.map .char), line, lines⟩) ∧
      ('\x00' ∉ w → '\x00' ∉ written) := by
  by_cases hplain : isPlain w = true
  · have hwritten : quoteChars w = w := if_pos hplain
    simp only [isPlain, Bool.and_eq_true] at hplain
    have hinert := (stripped?_eq_self_iff w).mpr (inert_of_plain w hplain.2)
    obtain rfl : w = m := Option.some.inj (hinert.symm.trans hm)
    refine ⟨w, fun text => ?_, fun line lines => ?_, id⟩
    · rw [hwritten]
      exact backquoted?_append w text (not_mem_of_plain w hplain.2 _ (by decide))
        (not_mem_of_plain w hplain.2 _ (by decide))
    · have hread := Reader.feed_quoteChars line lines w
      rwa [hwritten] at hread
  · refine ⟨'\'' :: (quoteBody m ++ ['\'']), fun text => ?_, fun line lines =>
      Reader.feed_quoted line lines m, fun hw => ?_⟩
    · rw [quoteChars, if_neg hplain, List.cons_append, List.append_assoc, List.singleton_append,
        backquoted?_cons _ _ (by decide) (by decide), backquoted?_quoteBody_of_some w m text hm,
        Option.map_map]
      simp [Function.comp_def]
    · have hm : '\x00' ∉ m := fun hmem => hw ((sublist_of_stripped? w m hm).subset hmem)
      simpa [nul_mem_quoteBody_iff] using hm

/-- a word that is not stripped ends the substitution inside its quotes -/
theorem backquoted?_quoteChars_of_none (w text : List Char) (hw : stripped? w = none) :
    ∃ inner rest, backquoted? (quoteChars w ++ text) = some (inner, rest) ∧ rest ≠ [] := by
  have hplain : ¬ isPlain w = true := fun h => by
    simp only [isPlain, Bool.and_eq_true] at h
    rw [(stripped?_eq_self_iff w).mpr (inert_of_plain w h.2)] at hw
    cases hw
  obtain ⟨inner, rest, h, hne⟩ := backquoted?_quoteBody_of_none w text hw
  rw [quoteChars, if_neg hplain, List.cons_append, List.append_assoc, List.singleton_append,
    backquoted?_cons _ _ (by decide) (by decide), h]
  exact ⟨_, rest, rfl, hne⟩

end Netlab.Shell
