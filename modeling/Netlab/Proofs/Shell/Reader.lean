import Mathlib.Data.List.Basic
import Netlab.Proofs.Reading
import Netlab.Shell.Command

/-!
# Shell text read back

A reader that takes shell text one character at a time, by the rules of a POSIX shell: blanks and
newlines divide words and lines, a hash where a word could start begins a comment, single quotes
and backslashes take away what a character means, and a dollar sign names a variable.  A text that
holds any other character that a shell acts upon, outside quotes, has no reading here, nor has one
that ends inside quotes.  So a reading tells that nothing but words, comments and variables stands
in the text.  A shell cannot be given a text with a NUL, so the readings of texts (`readLines?`)
refuse it; the reader itself takes a NUL as it takes any letter.  What becomes of the words of a
line, whether the first is a keyword or an assignment, is not its concern.

* `Reader.feed_quote`       a quoted word is read as one word, the word itself;
* `Reader.feed_joinWords`   a joined command line is read as its words;
* `expand?_literal`         a word without variables is the same in every environment;
* `unquote?_quote`          a quoted word read back is the word.
-/

namespace Netlab.Shell

/-- what a word is made of: a character that stands for itself, or the value of a variable -/
inductive Part where
  | char (c : Char)
  | ref (name : String)
deriving DecidableEq

/-- a word none of whose characters is acted upon -/
def literal (w : String) : List Part := w.toList.map .char

/-! ## the reader -/

/-- how the next character is taken -/
inductive Mode where
  | bare
  /-- between single quotes -/
  | quoted
  /-- behind a backslash -/
  | escaped
  | comment
  /-- in the name of a variable, behind the characters `read` of it -/
  | name (read : List Char)
deriving DecidableEq

structure Reader where
  mode : Mode := .bare
  /-- the word that is being read, if one is -/
  word : Option (List Part) := none
  /-- the words of this line in front of it -/
  line : List (List Part) := []
  /-- the lines before this one, without empty ones -/
  lines : List (List (List Part)) := []
deriving DecidableEq

/-- characters that a shell acts upon wherever they stand unquoted: operators, substitutions,
double quotes, patterns, and what some shells expand besides -/
def activeMarks : List Char :=
  ['|', '&', ';', '<', '>', '(', ')', '`', '"', '*', '?', '[', ']', '~', '{', '}', '!', '^']

/-- characters that a shell takes for themselves without quotes, a hash in front of a word apart -/
def isInertChar (c : Char) : Bool :=
  !(['\x00', '\n', ' ', '\t', '\'', '\\', '$'] ++ activeMarks).contains c

/-- words that are read as they are without quotes -/
def isInert (w : List Char) : Bool :=
  !w.isEmpty && w.head? != some '#' && w.all isInertChar

theorem isInertChar_of_isPlainChar (c : Char) (hc : isPlainChar c = true) :
    isInertChar c = true := by
  have hnot : (['\x00', '\n', ' ', '\t', '\'', '\\', '$'] ++ activeMarks).all (!isPlainChar ·)
      = true := by decide
  rw [isInertChar, Bool.not_eq_true', List.contains_eq_mem, decide_eq_false_iff_not]
  intro hmem
  have := List.all_eq_true.mp hnot c hmem
  rw [hc] at this
  cases this

/-- a word that `quote` leaves as it is -/
theorem isInert_of_isPlain (w : List Char) (hw : isPlain w = true) : isInert w = true := by
  rw [isPlain, Bool.and_eq_true] at hw
  rw [isInert, hw.1, Bool.true_and, List.all_eq_true]
  exact fun c hc => isInertChar_of_isPlainChar c (List.all_eq_true.mp hw.2 c hc)

/-- whether `c` may follow the characters `read` of the name of a variable -/
def continuesName (read : List Char) (c : Char) : Bool :=
  c.isAlpha || c == '_' || (!read.isEmpty && c.isDigit)

namespace Reader

def add (r : Reader) (p : Part) : Reader := { r with word := some (r.word.getD [] ++ [p]) }

def endWord (r : Reader) : Reader := { r with word := none, line := r.line ++ r.word.toList }

def endLine (r : Reader) : Reader :=
  let line := r.endWord.line
  { r with word := none, line := [], lines := r.lines ++ if line = [] then [] else [line] }

/-- one character outside quotes -/
def bareStep (r : Reader) (c : Char) : Option Reader :=
  match c with
  | '\n' => some r.endLine
  | ' ' | '\t' => some r.endWord
  | '\'' => some { r with mode := .quoted, word := some (r.word.getD []) }
  | '\\' => some { r with mode := .escaped }
  | '$' => some { r with mode := .name [] }
  | '#' => some (if r.word = none then { r with mode := .comment } else r.add (.char '#'))
  | c => if c ∈ activeMarks then none else some (r.add (.char c))

/-- one character; a backslash in front of a newline stands for nothing -/
def step (r : Reader) (c : Char) : Option Reader :=
  match r.mode with
  | .bare => r.bareStep c
  | .quoted => some (if c = '\'' then { r with mode := .bare } else r.add (.char c))
  | .escaped =>
    let r := { r with mode := .bare }
    some (if c = '\n' then r else r.add (.char c))
  | .comment => some (if c = '\n' then { r with mode := .bare }.endLine else r)
  | .name read =>
    if continuesName read c then some { r with mode := .name (read ++ [c]) }
    else if read = [] then none
    else ({ r with mode := .bare }.add (.ref (.ofList read))).bareStep c

/-- the lines at the end of a text -/
def finish (r : Reader) : Option (List (List (List Part))) :=
  match r.mode with
  | .bare | .comment => some r.endLine.lines
  | .quoted | .escaped | .name [] => none
  | .name read => some (r.add (.ref (.ofList read))).endLine.lines

/-- the lines of a text behind what is read already -/
def read? (r : Reader) (text : List Char) : Option (List (List (List Part))) :=
  (feed step r text).bind finish

end Reader

/-- the lines of a text, each with its words -/
def readLines? (text : List Char) : Option (List (List (List Part))) :=
  if '\x00' ∈ text then none else Reader.read? {} text

example : readLines? "a 'b c'  # d".toList = some [[literal "a", literal "b c"]] := by rfl
example : readLines? "a; b".toList = none := by rfl

/-! ## the words in an environment -/

/-- The value of a part.  A variable has to stand for plain characters, since any other value is
divided into words or taken for a pattern. -/
def Part.value? (env : String → String) : Part → Option (List Char)
  | char c => some [c]
  | ref name =>
    let value := (env name).toList
    if value ≠ [] ∧ value.all isPlainChar then some value else none

def expand? (env : String → String) (w : List Part) : Option String :=
  (w.mapM (Part.value? env)).map fun values => .ofList values.flatten

/-- the program calls of a text, line by line, each with its words -/
def calls? (env : String → String) (text : String) : Option (List (List String)) :=
  (readLines? text.toList).bind fun lines => lines.mapM fun line => line.mapM (expand? env)

/-- The word that a text stands for, if it stands for one word without variables.  Whether a shell
can be given the word is not asked, so a NUL is read as any other character. -/
def unquote? (text : List Char) : Option String :=
  match Reader.read? {} text with
  | some [[w]] => expand? (fun _ => "") w
  | _ => none

/-! ## runs -/

namespace Reader

section
variable (line : List (List Part)) (lines : List (List (List Part)))

/-! ### words -/

theorem bareStep_inert (r : Reader) (c : Char) (hc : isInertChar c = true)
    (hhash : c = '#' → r.word ≠ none) : r.bareStep c = some (r.add (.char c)) := by
  unfold bareStep
  split
  case h_7 => rw [if_neg (hhash rfl)]
  case h_8 =>
    refine if_neg fun hmem => ?_
    rw [isInertChar, List.contains_eq_mem, decide_eq_true (List.mem_append_right _ hmem)] at hc
    cases hc
  all_goals exact absurd hc (by decide)

theorem step_inert (p : Option (List Part)) (c : Char) (hc : isInertChar c = true)
    (hhash : c = '#' → p ≠ none) :
    step ⟨.bare, p, line, lines⟩ c = some ⟨.bare, some (p.getD [] ++ [.char c]), line, lines⟩ :=
  bareStep_inert _ c hc hhash

theorem feed_inert (p : List Part) (w : List Char) (hw : w.all isInertChar = true) :
    feed step ⟨.bare, some p, line, lines⟩ w
      = some ⟨.bare, some (p ++ w.map .char), line, lines⟩ := by
  induction w generalizing p with
  | nil => rw [feed_nil, List.map_nil, List.append_nil]
  | cons c cs ih =>
    rw [List.all_cons, Bool.and_eq_true] at hw
    have hstep := step_inert line lines (some p) c hw.1 fun _ => Option.some_ne_none p
    rw [feed_cons_of_eq_some cs hstep, ih _ hw.2, Option.getD_some, List.map_cons,
      List.append_assoc, List.singleton_append]

/-- a word that needs no quotes is read as it is -/
theorem feed_isInert (w : List Char) (hw : isInert w = true) :
    feed step ⟨.bare, none, line, lines⟩ w = some ⟨.bare, some (w.map .char), line, lines⟩ := by
  rw [isInert, Bool.and_eq_true, Bool.and_eq_true, bne_iff_ne] at hw
  obtain ⟨⟨hne, hhash⟩, hall⟩ := hw
  cases w with
  | nil => cases hne
  | cons c cs =>
    rw [List.head?_cons, ne_eq, Option.some.injEq] at hhash
    rw [List.all_cons, Bool.and_eq_true] at hall
    have hstep := step_inert line lines none c hall.1 fun e => absurd e hhash
    rw [feed_cons_of_eq_some cs hstep, feed_inert line lines _ cs hall.2]
    rfl

theorem feed_quoteBody (p : List Part) (w : List Char) :
    feed step ⟨.quoted, some p, line, lines⟩ (quoteBody w ++ ['\''])
      = some ⟨.bare, some (p ++ w.map .char), line, lines⟩ := by
  induction w generalizing p with
  | nil =>
    rw [List.map_nil, List.append_nil]
    rfl
  | cons c cs ih =>
    rw [List.map_cons, List.append_cons p]
    by_cases hc : c = '\''
    · -- out of the quotes, the quote behind a backslash, and in again
      subst hc
      exact ih (p ++ [.char '\''])
    · have hstep : step ⟨.quoted, some p, line, lines⟩ c
          = some ⟨.quoted, some (p ++ [.char c]), line, lines⟩ := congrArg some (if_neg hc)
      rw [quoteBody_cons c cs hc, List.cons_append, feed_cons_of_eq_some _ hstep, ih]

/-- between single quotes a word is read as it is -/
theorem feed_quoted (w : List Char) :
    feed step ⟨.bare, none, line, lines⟩ ('\'' :: (quoteBody w ++ ['\'']))
      = some ⟨.bare, some (w.map .char), line, lines⟩ :=
  feed_quoteBody line lines [] w

theorem feed_quoteChars (w : List Char) :
    feed step ⟨.bare, none, line, lines⟩ (quoteChars w)
      = some ⟨.bare, some (w.map .char), line, lines⟩ := by
  rw [quoteChars]
  split
  · next hplain => exact feed_isInert line lines w (isInert_of_isPlain w hplain)
  · exact feed_quoted line lines w

theorem feed_quote (w : String) :
    feed step ⟨.bare, none, line, lines⟩ (quote w).toList
      = some ⟨.bare, some (literal w), line, lines⟩ := by
  rw [quote_toList]
  exact feed_quoteChars line lines w.toList

/-! ### lines -/

theorem endLine_endWord (r : Reader) : r.endWord.endLine = r.endLine := by
  simp [endLine, endWord]

/-- Words that are each read from their spelling are read from the spellings with a space between
two of them.  The last word is still being read then. -/
theorem feed_intercalate (spell : String → String) (w : String) (ws : List String)
    (hspell : ∀ x ∈ w :: ws, ∀ line, feed step ⟨.bare, none, line, lines⟩ (spell x).toList
      = some ⟨.bare, some (literal x), line, lines⟩) :
    ∃ r,
      feed step ⟨.bare, none, line, lines⟩ (" ".intercalate ((w :: ws).map spell)).toList = some r ∧
      r.mode = .bare ∧ r.endWord = ⟨.bare, none, line ++ (w :: ws).map literal, lines⟩ := by
  rw [List.forall_mem_cons] at hspell
  induction ws generalizing w line with
  | nil => exact ⟨⟨.bare, some (literal w), line, lines⟩, hspell.1 line, rfl, rfl⟩
  | cons w' ws ih =>
    obtain ⟨r, hr, hmode, hend⟩ := ih (line ++ [literal w]) w' (List.forall_mem_cons.mp hspell.2)
    refine ⟨r, ?_, hmode, ?_⟩
    · have hspace : step ⟨.bare, some (literal w), line, lines⟩ ' '
          = some ⟨.bare, none, line ++ [literal w], lines⟩ := rfl
      have hjoin : (" ".intercalate ((w :: w' :: ws).map spell)).toList
          = (spell w).toList ++ ' ' :: (" ".intercalate ((w' :: ws).map spell)).toList := by
        rw [List.map_cons, List.map_cons, String.intercalate_cons_cons]
        simp only [String.toList_append, List.append_assoc]
        rfl
      rw [hjoin, feed_append_of_eq_some _ (hspell.1 line), feed_cons_of_eq_some _ hspace, hr]
    · rw [hend, List.append_assoc]
      rfl

/-- a joined command line, at whose end the last word is still being read -/
theorem feed_joinWords (w : String) (ws : List String) :
    ∃ r, feed step ⟨.bare, none, line, lines⟩ (joinWords (w :: ws)).toList = some r ∧
      r.mode = .bare ∧ r.endWord = ⟨.bare, none, line ++ (w :: ws).map literal, lines⟩ :=
  feed_intercalate line lines quote w ws fun x _ line => feed_quote line lines x

theorem feed_joinWords_space (w : String) (ws : List String) :
    feed step ⟨.bare, none, line, lines⟩ (joinWords (w :: ws) ++ " ").toList
      = some ⟨.bare, none, line ++ (w :: ws).map literal, lines⟩ := by
  obtain ⟨⟨mode, word, line', lines'⟩, hr, hmode, hend⟩ := feed_joinWords line lines w ws
  obtain rfl : mode = .bare := hmode
  rw [String.toList_append, feed_append_of_eq_some _ hr]
  exact congrArg some hend

theorem feed_joinWords_newline (w : String) (ws : List String) :
    feed step ⟨.bare, none, line, lines⟩ (joinWords (w :: ws) ++ "\n").toList
      = some ⟨.bare, none, [], lines ++ [line ++ (w :: ws).map literal]⟩ := by
  obtain ⟨⟨mode, word, line', lines'⟩, hr, hmode, hend⟩ := feed_joinWords line lines w ws
  obtain rfl : mode = .bare := hmode
  rw [String.toList_append, feed_append_of_eq_some _ hr]
  show some (endLine _) = _
  rw [← endLine_endWord, hend]
  simp [endLine, endWord]

theorem feed_comment (r : Reader) (hr : r.mode = .comment) (cs : List Char) (hcs : '\n' ∉ cs) :
    feed step r cs = some r := by
  refine feed_eq_self cs fun c hc => ?_
  have hline : c ≠ '\n' := fun e => hcs (e ▸ hc)
  rw [step, hr]
  exact congrArg some (if_neg hline)

end

end Reader

/-! ## texts with a NUL -/

theorem readLines?_of_nul_not_mem (text : List Char) (h : '\x00' ∉ text) :
    readLines? text = Reader.read? {} text := if_neg h

theorem readLines?_of_nul_mem (text : List Char) (h : '\x00' ∈ text) : readLines? text = none :=
  if_pos h

theorem nul_not_mem_of_isInert (w : List Char) (hw : isInert w = true) : '\x00' ∉ w := by
  rw [isInert, Bool.and_eq_true] at hw
  exact fun h => absurd (List.all_eq_true.mp hw.2 _ h) (by decide)

theorem nul_mem_quoteBody_iff (w : List Char) : '\x00' ∈ quoteBody w ↔ '\x00' ∈ w := by
  induction w with
  | nil => exact Iff.rfl
  | cons c cs ih =>
    by_cases hc : c = '\''
    · subst hc
      simp [quoteBody_quote, ih]
    · rw [quoteBody_cons c cs hc, List.mem_cons, List.mem_cons, ih]

theorem nul_mem_quote_iff (w : String) : '\x00' ∈ (quote w).toList ↔ '\x00' ∈ w.toList := by
  rw [quote_toList, quoteChars]
  split
  · exact Iff.rfl
  · simp [nul_mem_quoteBody_iff]

theorem nul_mem_intercalate_iff (ws : List String) :
    '\x00' ∈ (" ".intercalate ws).toList ↔ ∃ w ∈ ws, '\x00' ∈ w.toList := by
  induction ws with
  | nil => simp
  | cons w ws ih =>
    cases ws with
    | nil => simp
    | cons w' ws =>
      rw [String.intercalate_cons_cons, String.toList_append, String.toList_append, List.mem_append,
        List.mem_append, ih, List.exists_mem_cons_iff]
      simp

theorem nul_mem_joinWords_iff (ws : List String) :
    '\x00' ∈ (joinWords ws).toList ↔ ∃ w ∈ ws, '\x00' ∈ w.toList := by
  rw [joinWords, nul_mem_intercalate_iff]
  simp only [List.mem_map, exists_exists_and_eq_and, nul_mem_quote_iff]

/-! ## values of words -/

theorem expand?_literal (env : String → String) (w : String) :
    expand? env (literal w) = some w := by
  have hparts : (literal w).mapM (Part.value? env) = some (w.toList.map fun c => [c]) := by
    rw [literal]
    induction w.toList with
    | nil => rfl
    | cons c cs ih =>
      rw [List.map_cons, List.mapM_cons, ih]
      rfl
  have hflat : (w.toList.map fun c => [c]).flatten = w.toList := by
    rw [← List.flatMap_def, List.flatMap_singleton']
  rw [expand?, hparts, Option.map_some, hflat, String.ofList_toList]

theorem expand?_ref (env : String → String) (name : String) (hne : env name ≠ "")
    (hplain : (env name).toList.all isPlainChar = true) :
    expand? env [.ref name] = some (env name) := by
  have hvalue : (env name).toList ≠ [] ∧ (env name).toList.all isPlainChar = true :=
    ⟨fun h => hne (String.toList_eq_nil_iff.mp h), hplain⟩
  rw [expand?, List.mapM_cons, Part.value?]
  simp only [if_pos hvalue]
  show some (String.ofList [(env name).toList].flatten) = _
  rw [List.flatten_singleton, String.ofList_toList]

/-- a word has the values of its pieces put together -/
theorem expand?_append (env : String → String) (a b : List Part) (x y : String)
    (ha : expand? env a = some x) (hb : expand? env b = some y) :
    expand? env (a ++ b) = some (x ++ y) := by
  obtain ⟨as, has, rfl⟩ := Option.map_eq_some_iff.mp ha
  obtain ⟨bs, hbs, rfl⟩ := Option.map_eq_some_iff.mp hb
  rw [expand?, List.mapM_append, has, hbs]
  show some (String.ofList (as ++ bs).flatten) = _
  rw [List.flatten_append, String.ofList_append]

theorem mapM_expand?_literal (env : String → String) (ws : List String) :
    (ws.map literal).mapM (expand? env) = some ws :=
  mapM_map_eq_self _ _ (expand?_literal env) ws

/-- lines of words without variables are the calls with these words -/
theorem calls?_of_readLines? (env : String → String) (text : String) (calls : List (List String))
    (h : readLines? text.toList = some (calls.map (·.map literal))) :
    calls? env text = some calls := by
  rw [calls?, h, Option.bind_some]
  exact mapM_map_eq_self _ _ (mapM_expand?_literal env) calls

theorem unquote?_quote (w : String) : unquote? (quote w).toList = some w := by
  have hread : Reader.read? {} (quote w).toList = some [[literal w]] := by
    rw [Reader.read?, Reader.feed_quote, Option.bind_some]
    simp [Reader.finish, Reader.endLine, Reader.endWord]
  rw [unquote?, hread]
  exact expand?_literal _ w

end Netlab.Shell
