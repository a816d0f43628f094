import Netlab.Proofs.Reading
import Netlab.Value.Json

/-!
# JSON text read back

A reader that takes JSON text one character at a time and keeps the lists and records that are not
closed yet on a stack.  It takes all of JSON: any blanks between its marks, any escape of a text,
and numbers and truth values by their spelling.  The fields of a record are kept as they come.

* `Reader.feed_quoted`      a quoted text is read as that text;
* `readsBack_of_spelled`    the text of a value is read as that value;
* `read?_json`              so the JSON form of a value holds that value.
-/

namespace Netlab.Json

/-! ## words -/

/-- characters that numbers, truth values and the absence of a value are written with -/
def isWordChar (c : Char) : Bool := c.isAlphanum || c == '-' || c == '+' || c == '.'

def isDigits (cs : List Char) : Bool := !cs.isEmpty && cs.all Char.isDigit

/-- what may stand behind the digits of a number, up to its end -/
def isExponent : List Char → Bool
  | [] => true
  | e :: sign :: cs =>
    (e == 'e' || e == 'E') && isDigits (if sign == '+' || sign == '-' then cs else sign :: cs)
  | _ => false

/-- what may stand behind the whole part of a number -/
def isFraction : List Char → Bool
  | '.' :: cs =>
    isDigits (cs.takeWhile Char.isDigit) && isExponent (cs.dropWhile Char.isDigit)
  | cs => isExponent cs

/-- A number has no more digits in front than it needs. -/
def isNumber (cs : List Char) : Bool :=
  let cs := if cs.head? = some '-' then cs.tail else cs
  let whole := cs.takeWhile Char.isDigit
  (whole == ['0'] || (isDigits whole && whole.head? != some '0'))
    && isFraction (cs.dropWhile Char.isDigit)

/-- the value that a word stands for -/
def ofWord? (cs : List Char) : Option Value :=
  if cs = ['n', 'u', 'l', 'l'] then some .null
  else if cs = ['t', 'r', 'u', 'e'] ∨ cs = ['f', 'a', 'l', 's', 'e'] ∨ isNumber cs = true then
    some (.bare (.ofList cs))
  else none

example : ofWord? "-0.5e+10".toList = some (.bare "-0.5e+10") := by rfl
example : ofWord? "01".toList = none := by rfl

/-! ## escapes -/

/-- the character that a letter behind a backslash stands for -/
def escaped? : Char → Option Char
  | '"' => some '"'
  | '\\' => some '\\'
  | '/' => some '/'
  | 'b' => some '\x08'
  | 'f' => some '\x0c'
  | 'n' => some '\n'
  | 'r' => some '\r'
  | 't' => some '\t'
  | _ => none

def hexValue? (c : Char) : Option Nat :=
  if c.isDigit then some (c.toNat - '0'.toNat)
  else if 'a' ≤ c ∧ c ≤ 'f' then some (c.toNat - 'a'.toNat + 10)
  else if 'A' ≤ c ∧ c ≤ 'F' then some (c.toNat - 'A'.toNat + 10)
  else none

/-- the first half of a character written as a pair -/
def isHigh (code : Nat) : Bool := 0xd800 ≤ code && code < 0xdc00

/-- the second half -/
def isLow (code : Nat) : Bool := 0xdc00 ≤ code && code < 0xe000

/-! ## the reader -/

/-- a list or a record that is not closed yet, with what it holds so far -/
inductive Frame where
  | list (done : List Value)
  /-- `name` is that of the field whose value comes next -/
  | record (done : List (String × Value)) (name : String)

/-- a text that is being read; if it is the name of a field, `owner` holds the fields in front
of it -/
structure Partial where
  owner : Option (List (String × Value))
  read : List Char

/-- what the next character may be -/
inductive Mode where
  /-- the start of a value -/
  | value
  /-- the start of a name, behind the fields `done` -/
  | name (done : List (String × Value))
  /-- the colon behind a name -/
  | colon
  /-- what stands behind a value -/
  | behind (v : Value)
  /-- more of a word -/
  | word (read : List Char)
  /-- more of a text -/
  | text (p : Partial)
  /-- the character behind a backslash, `high` being a first half in front of it -/
  | escape (p : Partial) (high : Option Nat)
  /-- one of `more` hex digits, behind those that make `code` -/
  | hex (p : Partial) (high : Option Nat) (code more : Nat)
  /-- the backslash of a second half -/
  | half (p : Partial) (high : Nat)

structure Reader where
  mode : Mode := .value
  /-- the innermost first -/
  stack : List Frame := []

def isBlank (c : Char) : Bool := c == ' ' || c == '\n' || c == '\r' || c == '\t'

def Partial.add (p : Partial) (c : Char) : Mode := .text { p with read := p.read ++ [c] }

namespace Reader

/-- behind a quote that ends a text -/
def endText (r : Reader) (p : Partial) : Reader :=
  let s := String.ofList p.read
  match p.owner with
  | none => { r with mode := .behind (.text s) }
  | some done => ⟨.colon, .record done s :: r.stack⟩

/-- the start of a value, or the end of a list that is empty -/
def valueStep (r : Reader) (c : Char) : Option Reader :=
  match c, r.stack with
  | '"', _ => some { r with mode := .text ⟨none, []⟩ }
  | '[', stack => some ⟨.value, .list [] :: stack⟩
  | '{', _ => some { r with mode := .name [] }
  | ']', .list [] :: stack => some ⟨.behind (.list []), stack⟩
  | c, _ => if isWordChar c then some { r with mode := .word [c] } else none

/-- the start of a name, or the end of a record that is empty -/
def nameStep (r : Reader) (done : List (String × Value)) (c : Char) : Option Reader :=
  match c, done with
  | '"', done => some { r with mode := .text ⟨some done, []⟩ }
  | '}', [] => some { r with mode := .behind (.record []) }
  | _, _ => none

/-- behind a value: the next one, or the end of what it is in -/
def behindStep (r : Reader) (v : Value) (c : Char) : Option Reader :=
  match c, r.stack with
  | ',', .list done :: stack => some ⟨.value, .list (done ++ [v]) :: stack⟩
  | ']', .list done :: stack => some ⟨.behind (.list (done ++ [v])), stack⟩
  | ',', .record done name :: stack => some ⟨.name (done ++ [(name, v)]), stack⟩
  | '}', .record done name :: stack => some ⟨.behind (.record (done ++ [(name, v)])), stack⟩
  | _, _ => none

/-- one character that is not part of a word or a text -/
def markStep (r : Reader) (c : Char) : Option Reader :=
  if isBlank c then some r
  else match r.mode with
    | .value => r.valueStep c
    | .name done => r.nameStep done c
    | .colon => if c = ':' then some { r with mode := .value } else none
    | .behind v => r.behindStep v c
    | _ => none

/-- the code that the four digits of an escape make, a half of a character or a whole one -/
def endCode (r : Reader) (p : Partial) (high : Option Nat) (code : Nat) : Option Reader :=
  match high with
  | none =>
    if isHigh code then some { r with mode := .half p code }
    else if isLow code then none
    else some { r with mode := p.add (Char.ofNat code) }
  | some high =>
    if isLow code then
      some { r with mode := p.add (Char.ofNat (0x10000 + 0x400 * (high - 0xd800) + (code - 0xdc00))) }
    else none

def step (r : Reader) (c : Char) : Option Reader :=
  match r.mode with
  | .word read =>
    if isWordChar c then some { r with mode := .word (read ++ [c]) }
    else (ofWord? read).bind fun v => { r with mode := .behind v }.markStep c
  | .text p =>
    if c = '"' then some (r.endText p)
    else if c = '\\' then some { r with mode := .escape p none }
    else if c.toNat < 0x20 then none
    else some { r with mode := p.add c }
  | .escape p high =>
    if c = 'u' then some { r with mode := .hex p high 0 4 }
    else if high.isSome then none
    else (escaped? c).map fun c => { r with mode := p.add c }
  | .hex p high code more =>
    (hexValue? c).bind fun d =>
      if more ≤ 1 then r.endCode p high (16 * code + d)
      else some { r with mode := .hex p high (16 * code + d) (more - 1) }
  | .half p high => if c = '\\' then some { r with mode := .escape p (some high) } else none
  | _ => r.markStep c

/-- the value at the end of a text -/
def finish (r : Reader) : Option Value :=
  match r.mode, r.stack with
  | .behind v, [] => some v
  | .word read, [] => ofWord? read
  | _, _ => none

end Reader

/-- the value that a JSON text holds -/
def read? (text : String) : Option Value := (feed Reader.step {} text.toList).bind Reader.finish

/-! ## pieces of a text -/

namespace Reader

/-! ### blanks -/

/-- whether blanks may stand here -/
def skips (r : Reader) : Bool :=
  match r.mode with
  | .value | .name _ | .colon | .behind _ => true
  | _ => false

theorem step_blank (r : Reader) (hr : r.skips = true) (c : Char) (hc : isBlank c = true) :
    r.step c = some r := by
  obtain ⟨mode, stack⟩ := r
  have hmark : markStep ⟨mode, stack⟩ c = some ⟨mode, stack⟩ := by rw [markStep, if_pos hc]
  cases mode with
  | value | name | colon | behind => exact hmark
  | word | text | escape | hex | half => cases hr

theorem feed_blank (r : Reader) (hr : r.skips = true) (cs : List Char)
    (hcs : ∀ c ∈ cs, isBlank c = true) : feed step r cs = some r :=
  feed_eq_self cs fun c hc => r.step_blank hr c (hcs c hc)

theorem feed_newline (r : Reader) (hr : r.skips = true) (level : Nat) (tail : List Char) :
    feed step r (Value.newline level ++ tail) = feed step r tail := by
  refine feed_append_of_eq_some tail (r.feed_blank hr _ ?_)
  refine List.forall_mem_cons.mpr ⟨rfl, fun c hc => ?_⟩
  rw [List.eq_of_mem_replicate hc]
  rfl

/-! ### texts -/

theorem hexValue?_hexDigit (n : Nat) (hn : n < 16) : hexValue? (Value.hexDigit n) = some n := by
  have hall : ∀ n < 16, hexValue? (Value.hexDigit n) = some n := by decide
  exact hall n hn

section
variable (stack : List Frame) (p : Partial)

/-- a control character is read from its code -/
theorem feed_code (c : Char) (hc : c.toNat < 0x20) :
    feed step ⟨.text p, stack⟩
        ['\\', 'u', '0', '0', Value.hexDigit (c.toNat / 16), Value.hexDigit (c.toNat % 16)]
      = some ⟨p.add c, stack⟩ := by
  have hfront (tail : List Char) : feed step ⟨.text p, stack⟩ ('\\' :: 'u' :: '0' :: '0' :: tail)
      = feed step ⟨.hex p none 0 2, stack⟩ tail := rfl
  have hhigh := hexValue?_hexDigit (c.toNat / 16) (by omega)
  have hlow := hexValue?_hexDigit (c.toNat % 16) (by omega)
  have hcode : 16 * (16 * 0 + c.toNat / 16) + c.toNat % 16 = c.toNat := by omega
  have hwhole : isHigh c.toNat = false ∧ isLow c.toNat = false := by
    constructor
    · rw [isHigh, decide_eq_false (by omega), Bool.false_and]
    · rw [isLow, decide_eq_false (by omega), Bool.false_and]
  rw [hfront, feed_cons, step]
  simp only [hhigh, Option.bind_some]
  show feed step ⟨.hex p none (16 * 0 + c.toNat / 16) 1, stack⟩ _ = _
  rw [feed_cons, step]
  simp only [hlow, Option.bind_some, hcode]
  simp [endCode, hwhole, feed_nil]

theorem feed_escape (c : Char) :
    feed step ⟨.text p, stack⟩ (Value.escape c) = some ⟨p.add c, stack⟩ := by
  unfold Value.escape
  split
  case h_8 hquote hslash _ _ _ _ _ =>
    split
    · next hc => exact feed_code stack p c hc
    · next hc =>
      rw [feed_cons, step]
      simp only [if_neg hquote, if_neg hslash, if_neg hc, Option.bind_some, feed_nil]
  all_goals rfl

theorem feed_body (cs : List Char) :
    feed step ⟨.text p, stack⟩ (cs.flatMap Value.escape)
      = some ⟨.text { p with read := p.read ++ cs }, stack⟩ := by
  induction cs generalizing p with
  | nil => rw [List.append_nil]; rfl
  | cons c cs ih =>
    rw [List.flatMap_cons, feed_append_of_eq_some _ (feed_escape stack p c), Partial.add, ih,
      List.append_assoc, List.singleton_append]

end

/-- a quoted text, where one may stand, is read as that text -/
theorem feed_quoted (r : Reader) (owner : Option (List (String × Value)))
    (hr : r.step '"' = some { r with mode := .text ⟨owner, []⟩ }) (s : String) (tail : List Char) :
    feed step r (Value.quoted s ++ tail) = feed step (r.endText ⟨owner, s.toList⟩) tail := by
  have hend : step ⟨.text ⟨owner, s.toList⟩, r.stack⟩ '"' = some (r.endText ⟨owner, s.toList⟩) := by
    cases owner <;> rfl
  rw [Value.quoted, List.cons_append, feed_cons_of_eq_some _ hr, List.append_assoc,
    feed_append_of_eq_some _ (feed_body _ _ _), List.nil_append, List.singleton_append,
    feed_cons_of_eq_some _ hend]

end Reader

/-! ## values -/

/-- a value whose bare spellings are those of numbers and truth values -/
inductive Spelled : Value → Prop
  | null : Spelled .null
  | text (s : String) : Spelled (.text s)
  | bare (spelling : String) (hchars : ∀ c ∈ spelling.toList, isWordChar c = true)
      (hword : ofWord? spelling.toList = some (.bare spelling)) : Spelled (.bare spelling)
  | list (items : List Value) (hitems : ∀ v ∈ items, Spelled v) : Spelled (.list items)
  | record (fields : List (String × Value)) (hfields : ∀ f ∈ fields, Spelled f.2) :
      Spelled (.record fields)

/-- a text that a word in front of it does not run on into -/
def Divided (tail : List Char) : Prop := ∃ c cs, tail = c :: cs ∧ isWordChar c = false

/-- the text of a value, at whatever level, is read as that value -/
def ReadsBack (v : Value) : Prop :=
  ∀ level stack tail, Divided tail →
    feed Reader.step ⟨.value, stack⟩ (v.pretty level ++ tail)
      = feed Reader.step ⟨.behind v, stack⟩ tail

theorem divided_newline (level : Nat) (tail : List Char) : Divided (Value.newline level ++ tail) :=
  ⟨_, _, rfl, rfl⟩

theorem divided_prettyItems (level outer : Nat) (vs : List Value) (tail : List Char) :
    Divided (Value.prettyItems level vs ++ (Value.newline outer ++ tail)) := by
  cases vs with
  | nil => exact divided_newline outer tail
  | cons v vs => exact ⟨',', _, rfl, rfl⟩

theorem divided_prettyFields (level outer : Nat) (fs : List (String × Value)) (tail : List Char) :
    Divided (Value.prettyFields level fs ++ (Value.newline outer ++ tail)) := by
  cases fs with
  | nil => exact divided_newline outer tail
  | cons f fs => exact ⟨',', _, rfl, rfl⟩

namespace Reader

/-- more of a word -/
theorem feed_word (stack : List Frame) (read cs : List Char) (hcs : ∀ c ∈ cs, isWordChar c = true) :
    feed step ⟨.word read, stack⟩ cs = some ⟨.word (read ++ cs), stack⟩ := by
  induction cs generalizing read with
  | nil => rw [List.append_nil]; rfl
  | cons c cs ih =>
    rw [List.forall_mem_cons] at hcs
    have hstep : step ⟨.word read, stack⟩ c = some ⟨.word (read ++ [c]), stack⟩ := if_pos hcs.1
    rw [feed_cons_of_eq_some cs hstep, ih _ hcs.2, List.append_assoc, List.singleton_append]

/-- where a value may start, a word does -/
theorem step_word (stack : List Frame) (c : Char) (hc : isWordChar c = true) :
    step ⟨.value, stack⟩ c = some ⟨.word [c], stack⟩ := by
  have hnot (mark : Char) (hmark : isWordChar mark = false) : c ≠ mark := by
    rintro rfl
    rw [hc] at hmark
    cases hmark
  have hblank : isBlank c = false := by
    simp [isBlank, hnot ' ' rfl, hnot '\n' rfl, hnot '\r' rfl, hnot '\t' rfl]
  show markStep ⟨.value, stack⟩ c = _
  rw [markStep, hblank]
  show valueStep ⟨.value, stack⟩ c = _
  unfold valueStep
  split
  case h_1 => exact absurd rfl (hnot '"' rfl)
  case h_2 => exact absurd rfl (hnot '[' rfl)
  case h_3 => exact absurd rfl (hnot '{' rfl)
  case h_4 => exact absurd rfl (hnot ']' rfl)
  case h_5 => exact if_pos hc

/-- a word is read as the value that it stands for -/
theorem readsBack_word (v : Value) (word : List Char) (hchars : ∀ c ∈ word, isWordChar c = true)
    (hword : ofWord? word = some v) (stack : List Frame) (tail : List Char) (htail : Divided tail) :
    feed step ⟨.value, stack⟩ (word ++ tail) = feed step ⟨.behind v, stack⟩ tail := by
  obtain ⟨d, tail, rfl, hd⟩ := htail
  cases word with
  | nil => cases hword
  | cons c cs =>
    rw [List.forall_mem_cons] at hchars
    have hend : step ⟨.word ([c] ++ cs), stack⟩ d = step ⟨.behind v, stack⟩ d := by
      show (if isWordChar d then _ else _) = _
      rw [if_neg (Bool.eq_false_iff.mp hd), List.singleton_append, hword]
      rfl
    rw [List.cons_append, feed_cons_of_eq_some _ (step_word stack c hchars.1),
      feed_append_of_eq_some _ (feed_word stack [c] cs hchars.2), feed_cons, hend, feed_cons]

/-- the items behind the first one, up to the end of the list -/
theorem feed_prettyItems (level outer : Nat) (stack : List Frame) (tail : List Char)
    (done : List Value) (v : Value) (vs : List Value) (hvs : ∀ v ∈ vs, ReadsBack v) :
    feed step ⟨.behind v, .list done :: stack⟩
        (Value.prettyItems level vs ++ (Value.newline outer ++ ']' :: tail))
      = feed step ⟨.behind (.list (done ++ v :: vs)), stack⟩ tail := by
  induction vs generalizing done v with
  | nil =>
    show feed step ⟨.behind v, .list done :: stack⟩ (Value.newline outer ++ ']' :: tail) = _
    rw [feed_newline _ rfl]
    rfl
  | cons w vs ih =>
    rw [List.forall_mem_cons] at hvs
    have hcomma (rest : List Char) : feed step ⟨.behind v, .list done :: stack⟩ (',' :: rest)
        = feed step ⟨.value, .list (done ++ [v]) :: stack⟩ rest := rfl
    rw [Value.prettyItems]
    simp only [List.cons_append, List.append_assoc]
    rw [hcomma, feed_newline _ rfl, hvs.1 _ _ _ (divided_prettyItems ..), ih _ _ hvs.2,
      List.append_assoc, List.singleton_append]

/-- a field with its name -/
theorem feed_field (level : Nat) (stack : List Frame) (tail : List Char) (htail : Divided tail)
    (done : List (String × Value)) (name : String) (v : Value) (hv : ReadsBack v) :
    feed step ⟨.name done, stack⟩ (Value.quoted name ++ (':' :: ' ' :: (v.pretty level ++ tail)))
      = feed step ⟨.behind v, .record done name :: stack⟩ tail := by
  have hname := feed_quoted ⟨.name done, stack⟩ (some done) rfl name
    (':' :: ' ' :: (v.pretty level ++ tail))
  have hcolon (rest : List Char) :
      feed step ⟨.colon, .record done name :: stack⟩ (':' :: ' ' :: rest)
      = feed step ⟨.value, .record done name :: stack⟩ rest := rfl
  rw [hname, endText, String.ofList_toList]
  exact (hcolon _).trans (hv level _ tail htail)

/-- the fields behind the first one, up to the end of the record -/
theorem feed_prettyFields (level outer : Nat) (stack : List Frame) (tail : List Char)
    (done : List (String × Value)) (name : String) (v : Value) (fs : List (String × Value))
    (hfs : ∀ f ∈ fs, ReadsBack f.2) :
    feed step ⟨.behind v, .record done name :: stack⟩
        (Value.prettyFields level fs ++ (Value.newline outer ++ '}' :: tail))
      = feed step ⟨.behind (.record (done ++ (name, v) :: fs)), stack⟩ tail := by
  induction fs generalizing done name v with
  | nil =>
    show feed step ⟨.behind v, .record done name :: stack⟩ (Value.newline outer ++ '}' :: tail) = _
    rw [feed_newline _ rfl]
    rfl
  | cons f fs ih =>
    obtain ⟨name', w⟩ := f
    rw [List.forall_mem_cons] at hfs
    have hcomma (rest : List Char) : feed step ⟨.behind v, .record done name :: stack⟩ (',' :: rest)
        = feed step ⟨.name (done ++ [(name, v)]), stack⟩ rest := rfl
    rw [Value.prettyFields]
    simp only [List.cons_append, List.nil_append, List.append_assoc]
    rw [hcomma, feed_newline _ rfl, feed_field _ _ _ (divided_prettyFields ..) _ _ _ hfs.1,
      ih _ _ _ hfs.2, List.append_assoc, List.singleton_append]

end Reader

open Reader in
/-- The text of a value is read as that value, at whatever level it stands. -/
theorem readsBack_of_spelled (v : Value) (hv : Spelled v) : ReadsBack v := by
  intro level stack tail htail
  induction hv generalizing level stack tail with
  | null =>
    exact readsBack_word .null ['n', 'u', 'l', 'l'] (List.all_eq_true.mp rfl) rfl stack tail htail
  | text s =>
    rw [Value.pretty, feed_quoted ⟨.value, stack⟩ none rfl, endText, String.ofList_toList]
  | bare spelling hchars hword => exact readsBack_word _ _ hchars hword stack tail htail
  | list items hitems ih =>
    cases items with
    | nil => rfl
    | cons v vs =>
      have hreads : ∀ w ∈ v :: vs, ReadsBack w :=
        fun w hw level stack tail => ih w hw level stack tail
      rw [List.forall_mem_cons] at hreads
      have hopen (rest : List Char) : feed step ⟨.value, stack⟩ ('[' :: rest)
          = feed step ⟨.value, .list [] :: stack⟩ rest := rfl
      rw [Value.pretty]
      simp only [List.cons_append, List.nil_append, List.append_assoc]
      rw [hopen, feed_newline _ rfl, hreads.1 _ _ _ (divided_prettyItems ..),
        feed_prettyItems _ _ _ _ _ _ _ hreads.2, List.nil_append]
  | record fields hfields ih =>
    cases fields with
    | nil => rfl
    | cons f fs =>
      obtain ⟨name, v⟩ := f
      have hreads : ∀ g ∈ (name, v) :: fs, ReadsBack g.2 :=
        fun g hg level stack tail => ih g hg level stack tail
      rw [List.forall_mem_cons] at hreads
      have hopen (rest : List Char) : feed step ⟨.value, stack⟩ ('{' :: rest)
          = feed step ⟨.name [], stack⟩ rest := rfl
      rw [Value.pretty]
      simp only [List.cons_append, List.nil_append, List.append_assoc]
      rw [hopen, feed_newline _ rfl, feed_field _ _ _ (divided_prettyFields ..) _ _ _ hreads.1,
        feed_prettyFields _ _ _ _ _ _ _ _ hreads.2, List.nil_append]

/-- the JSON form of a value, with a line break at its end, holds that value -/
theorem read?_json (v : Value) (hv : Spelled v) : read? (v.json ++ "\n") = some v := by
  have htext : (v.json ++ "\n").toList = v.pretty 0 ++ ['\n'] := by
    rw [Value.json, String.toList_append, String.toList_ofList]
    rfl
  rw [read?, htext, readsBack_of_spelled v hv 0 [] ['\n'] ⟨'\n', [], rfl, rfl⟩]
  rfl

example : read? " \x7b \"a\" : [1, true , \"\\u00e9\\ud83d\\ude00\\/\"], \"b\":null\x7d"
    = some (.record [("a", .list [.bare "1", .bare "true", .text "é😀/"]), ("b", .null)]) := by rfl
example : read? "[1,]" = none := by rfl

end Netlab.Json
