import Netlab.Proofs.Topology.LegacyWords
import Netlab.Proofs.Yaml.Gaps

/-!
# What the search for the former name sees in a line

The search (`LegacyKey.usedFrom`) knows no more than the lines of a text.  In a text in block style
these are its lines without the blank ones (`usedFrom_written`).  On a clear line (`Line.isClear`)
it sees keys and texts as what they are, and all depends on what it remembers: `usedFrom_clear`.
-/

namespace Netlab

open Text (isBlank trimStart withoutReturn linesFrom)
open Yaml

/-! ## the lines of a text -/

namespace Text

theorem linesFrom_append (cs : List Char) (h : '\n' ∉ cs) (line rest : List Char) :
    linesFrom line (cs ++ '\n' :: rest)
      = withoutReturn (line.reverse ++ cs) :: linesFrom [] rest := by
  induction cs generalizing line with
  | nil => rw [List.nil_append, linesFrom, List.append_nil]
  | cons c cs ih =>
    rw [List.mem_cons, not_or] at h
    rw [List.cons_append, linesFrom, ih h.2, List.reverse_cons, List.append_assoc]
    · rfl
    · exact fun hc => h.1 hc.symm

theorem linesFrom_end (cs : List Char) (h : '\n' ∉ cs) (line : List Char) :
    linesFrom line cs = if (line.reverse ++ cs).isEmpty then [] else [line.reverse ++ cs] := by
  induction cs generalizing line with
  | nil => simp [linesFrom]
  | cons c cs ih =>
    rw [List.mem_cons, not_or] at h
    rw [linesFrom, ih h.2, List.reverse_cons, List.append_assoc]
    · rfl
    · exact fun hc => h.1 hc.symm

theorem withoutReturn_inline (cs : List Char) (h : '\r' ∉ cs) :
    withoutReturn cs = cs ∧ withoutReturn (cs ++ ['\r']) = cs := by
  constructor
  · rw [withoutReturn, if_neg]
    exact fun hlast => h (List.mem_of_getLast? hlast)
  · rw [withoutReturn, if_pos (by simp), List.dropLast_concat]

/-- a line without breaks in it ends at the next line end -/
theorem linesFrom_lineEnd (cs : List Char) (h : cs.all isInline = true) (e : LineEnd)
    (rest : List Char) : linesFrom [] (cs ++ (e.chars ++ rest)) = cs :: linesFrom [] rest := by
  have hnot (c : Char) (hc : isInline c = false) : c ∉ cs := by
    intro hmem
    rw [List.all_eq_true.mp h c hmem] at hc
    cases hc
  have hfeed := hnot '\n' (by decide)
  obtain ⟨hsame, hdropped⟩ := withoutReturn_inline cs (hnot '\r' (by decide))
  cases e with
  | feed =>
    rw [LineEnd.chars, List.singleton_append, linesFrom_append cs hfeed, List.reverse_nil,
      List.nil_append, hsame]
  | returnFeed =>
    have hline : '\n' ∉ cs ++ ['\r'] := by simp [hfeed]
    rw [LineEnd.chars, show cs ++ (['\r', '\n'] ++ rest) = (cs ++ ['\r']) ++ '\n' :: rest by simp,
      linesFrom_append _ hline, List.reverse_nil, List.nil_append, hdropped]

end Text

namespace LegacyKey

theorem usedFrom_spaces (outer : Option Nat) (n : Nat) (rest : List (List Char)) :
    usedFrom outer (spaces n :: rest) = usedFrom outer rest := by
  have htrim : trimStart (spaces n) = [] := by
    rw [trimStart, List.dropWhile_eq_nil_iff]
    intro c hc
    rw [List.eq_of_mem_replicate hc]
    decide
  rw [usedFrom]
  simp [htrim]

theorem usedFrom_cons_congr {rest rest' : List (List Char)}
    (h : ∀ outer, usedFrom outer rest = usedFrom outer rest') (outer : Option Nat)
    (line : List Char) : usedFrom outer (line :: rest) = usedFrom outer (line :: rest') := by
  simp only [usedFrom, h]

/-- the blank lines of a text are passed over -/
theorem usedFrom_written {ls : List Line} {cs : List Char} (h : Written ls cs)
    (outer : Option Nat) :
    usedFrom outer (Text.lines cs) = usedFrom outer (ls.map Line.chars) := by
  have hspaces := isInline_spaces
  have hend (cs : List Char) (h : cs.all isInline = true) : '\n' ∉ cs := by
    intro hmem
    have hfeed := List.all_eq_true.mp h _ hmem
    revert hfeed
    decide
  induction h generalizing outer with
  | done n =>
    rw [Text.lines, Text.linesFrom_end _ (hend _ (hspaces n)), List.reverse_nil, List.nil_append]
    split
    · rfl
    · exact usedFrom_spaces outer n []
  | last l =>
    obtain ⟨c, ds, hcontent, _⟩ := l.exists_content
    have hne : l.chars.isEmpty = false := by
      rw [Line.chars, hcontent]
      simp
    rw [Text.lines, Text.linesFrom_end _ (hend _ l.isInline_chars), List.reverse_nil,
      List.nil_append, hne]
    rfl
  | blank n e h ih =>
    rw [Text.lines, Text.linesFrom_lineEnd _ (hspaces n), usedFrom_spaces]
    exact ih outer
  | line l e h ih =>
    rw [Text.lines, Text.linesFrom_lineEnd _ l.isInline_chars]
    exact usedFrom_cons_congr ih outer l.chars

end LegacyKey

/-! ## clear lines -/

namespace Yaml

/-- what a body starts with, a key without its colon -/
def Body.start : Body → List Char
  | mark => []
  | dash => []
  | scalar s => s.chars
  | key k => k.chars
  | pair k _ _ => k.chars

def Body.key? : Body → Option Word
  | key k => some k
  | pair k _ _ => some k
  | _ => none

namespace Line

def isKey (name : String) (l : Line) : Bool := l.body.key?.any (·.chars == name.toList)

/-- whether the body starts with a name and a colon, without being that key -/
def feigns (name : String) (l : Line) : Bool := (name.toList ++ [':']).isPrefixOf l.body.start

/-- whether the line starts with a dash and a space -/
def isItem (l : Line) : Bool :=
  !l.lead.dashes.isEmpty ||
    match l.body with
    | .dash => l.trail != 0
    | _ => false

/-- whether the line seems to belong to a key at the column `o` -/
def isBelow (o : Nat) (l : Line) : Bool := o < l.lead.indent || (o = l.lead.indent && l.isItem)

/-- what stands on the line of a key behind its colon -/
def value : Line → List Char
  | ⟨_, .pair _ _ s, _⟩ => s.chars
  | _ => []

/-- Whether the search sees a line as what it is, when the line is in the value of a `sysctls` key
at the column `outer`, or in none.  No blank characters but spaces are in front of the body.
Nothing but the key starts like `sysctls:`.  That key has one space behind each dash in front of it,
is outside the value of another such key, and `string:` is not in a text beside it.  Inside its
value nothing but the key starts like `string:`, several dashes on a line have one space between
them, and the line is indented further than the key or is at its column with a dash and a space. -/
def isClear (outer : Option Nat) (l : Line) : Bool :=
  l.body.start.head?.all (!isBlank ·) && !l.feigns "sysctls"
    && (!l.isKey "sysctls" || (outer.isNone && l.lead.dashes.all (· == 0)
      && !LegacyKey.contains "string:".toList l.value))
    && outer.all fun o => l.isBelow o && !l.feigns "string" && l.lead.dashes.dropLast.all (· == 0)

/-- whether a `sysctls` key, if the line has one, is the first thing on it -/
def isUndashed (l : Line) : Bool := !l.isKey "sysctls" || l.lead.dashes.isEmpty

/-- the column of the `sysctls` key whose value the lines below it are in, if they are its value -/
def inner (outer : Option Nat) (l : Line) : Option Nat :=
  if l.isKey "sysctls" then some l.lead.column else outer

/-- the line without its indentation -/
def text (l : Line) : List Char := l.content ++ spaces l.trail

end Line

end Yaml

namespace LegacyKey

/-! ### the start of a line -/

/-- a plain scalar does not start with a dash and a space -/
theorem not_dash_isPlain {behind cs rest : List Char} (h : isPlain behind cs = true)
    (hrest : startsGap rest = startsGap behind) : ¬ ['-', ' '] <+: cs ++ rest := by
  cases cs with
  | nil => cases h
  | cons c cs =>
    simp only [isPlain, Bool.and_eq_true, Bool.not_eq_true'] at h
    obtain ⟨⟨⟨⟨_, hdash⟩, _⟩, _⟩, _⟩ := h
    rintro ⟨t, ht⟩
    have hc : '-' = c := (List.cons.inj ht).1
    have hcs : ' ' :: t = cs ++ rest := (List.cons.inj ht).2
    rw [← startsGap_append cs rest behind hrest, ← hcs, ← hc] at hdash
    cases hdash

theorem not_dash_body (b : Body) (hb : b ≠ .dash) (n : Nat) :
    ¬ ['-', ' '] <+: b.chars ++ spaces n := by
  have hspaces : startsGap (spaces n) = startsGap [] := by
    cases n <;> rfl
  cases b with
  | mark =>
    rintro ⟨t, ht⟩
    exact absurd (List.cons.inj (List.cons.inj ht).2).1 (by decide)
  | dash => exact absurd rfl hb
  | scalar s =>
    cases s with
    | plain cs h => exact not_dash_isPlain h hspaces
    | single | double =>
      rintro ⟨t, ht⟩
      exact absurd (List.cons.inj ht).1 (by decide)
  | key k =>
    rw [Body.chars, List.append_assoc]
    exact not_dash_isPlain k.plain rfl
  | pair k gap s =>
    rw [Body.chars, List.append_assoc]
    exact not_dash_isPlain k.plain rfl

/-- the text of a line starts as an item exactly if it is one -/
theorem isItem_eq (l : Line) : (behind? "- ".toList l.text).isSome = l.isItem := by
  rw [isSome_behind?]
  obtain ⟨⟨indent, dashes⟩, body, trail⟩ := l
  cases dashes with
  | cons gap dashes => rfl
  | nil =>
    by_cases hb : body = .dash
    · subst hb
      cases trail <;> rfl
    · have hitem : Line.isItem ⟨⟨indent, []⟩, body, trail⟩ = false := by
        cases body <;> first | rfl | exact absurd rfl hb
      rw [hitem, Bool.eq_false_iff, ne_eq, List.isPrefixOf_iff_prefix]
      exact not_dash_body body hb trail

theorem text_eq (l : Line) :
    l.text = l.lead.dashes.flatMap dashChars ++ (l.body.chars ++ spaces l.trail) :=
  List.append_assoc ..

theorem ne_brace_of_isPlain {behind cs : List Char} {c : Char}
    (h : isPlain behind (c :: cs) = true) :
    c ≠ '\x7b' := by
  rintro rfl
  simp only [isPlain, Bool.and_eq_true] at h
  cases h.1.1.1.1

theorem exists_body (l : Line) (hblank : l.body.start.head?.all (!isBlank ·) = true) :
    ∃ c cs, l.body.chars = c :: cs ∧ isBlank c = false ∧ c ≠ '#' ∧ c ≠ '\x7b' := by
  obtain ⟨lead, body, trail⟩ := l
  have hplain {behind cs : List Char} (h : isPlain behind cs = true)
      (hb : cs.head?.all (!isBlank ·) = true) :
      ∃ c t, cs = c :: t ∧ isBlank c = false ∧ c ≠ '#' ∧ c ≠ '\x7b' := by
    obtain ⟨c, t, rfl, hc⟩ := exists_of_isPlain h
    exact ⟨c, t, rfl, by simpa using hb, ((startsContent_iff c).mp hc).2.2.1, ne_brace_of_isPlain h⟩
  have hword (k : Word) (more : List Char) (hb : k.chars.head?.all (!isBlank ·) = true) :
      ∃ c t, k.chars ++ more = c :: t ∧ isBlank c = false ∧ c ≠ '#' ∧ c ≠ '\x7b' := by
    obtain ⟨c, t, ht, hc⟩ := hplain k.plain hb
    exact ⟨c, t ++ more, by rw [ht, List.cons_append], hc⟩
  cases body with
  | mark => exact ⟨'-', _, rfl, by decide⟩
  | dash => exact ⟨'-', _, rfl, by decide⟩
  | scalar s =>
    cases s with
    | plain cs h => exact hplain h hblank
    | single text h => exact ⟨'\'', _, rfl, by decide⟩
    | double parts h => exact ⟨'"', _, rfl, by decide⟩
  | key k => exact hword k _ hblank
  | pair k gap s => exact hword k _ hblank

theorem exists_text (l : Line) (hblank : l.body.start.head?.all (!isBlank ·) = true) :
    ∃ c cs, l.text = c :: cs ∧ isBlank c = false ∧ c ≠ '#' := by
  obtain ⟨c, cs, hcs, hc, hsign, _⟩ := exists_body l hblank
  rw [text_eq, hcs]
  cases l.lead.dashes with
  | cons gap dashes => exact ⟨'-', _, rfl, by decide, by decide⟩
  | nil => exact ⟨c, _, rfl, hc, hsign⟩

/-! ### one line -/

/-- what the search does with a line that has no blank characters but spaces in front -/
theorem usedFrom_line (outer : Option Nat) (l : Line)
    (hblank : l.body.start.head?.all (!isBlank ·) = true) (rest : List (List Char)) :
    usedFrom outer (l.chars :: rest) =
      match behind? "sysctls:".toList (undash l.text) with
      | some value => contains "string:".toList value || usedFrom (some l.lead.indent) rest
      | none =>
        ((outer.filter (l.isBelow ·)).isSome && (behind? "string:".toList (entry l.text)).isSome)
          || usedFrom (outer.filter (l.isBelow ·)) rest := by
  obtain ⟨c, cs, htext, hc, hsign⟩ := exists_text l hblank
  have htrim : trimStart l.chars = l.text := by
    show trimStart (spaces l.lead.indent ++ l.text) = l.text
    rw [trimStart_spaces, htext, trimStart_of_not_blank hc]
  have hindent : bytes l.chars - bytes l.text = l.lead.indent := by
    show bytes (spaces l.lead.indent ++ l.text) - _ = _
    rw [bytes_append, bytes_spaces, Nat.add_sub_cancel]
  have hskip : (l.text.isEmpty || l.text.head? = some '#') = false := by
    rw [htext]
    simpa using hsign
  rw [usedFrom]
  simp only [htrim, hindent, hskip, isItem_eq, Bool.false_eq_true, if_false]
  rfl

/-! ### clear lines -/

/-- the two names that the search knows -/
def IsSearched (name : String) : Prop := name = "sysctls" ∨ name = "string"

theorem IsSearched.chars {name : String} (h : IsSearched name) :
    ' ' ∉ name.toList ∧ ':' ∉ name.toList ∧ ∃ cs, name.toList = 's' :: cs := by
  rcases h with rfl | rfl
  · exact ⟨by decide, by decide, _, rfl⟩
  · exact ⟨by decide, by decide, _, rfl⟩

section
variable {name : String} (hname : IsSearched name)
include hname

theorem not_prefix_of_not_mem {cs : List Char} (h : 's' ∉ cs) : ¬ name.toList ++ [':'] <+: cs := by
  obtain ⟨_, _, ds, hds⟩ := hname.chars
  intro hstarts
  refine h (hstarts.subset ?_)
  rw [hds]
  exact List.mem_cons_self ..

theorem prefix_body_iff (l : Line) :
    name.toList ++ [':'] <+: l.body.chars ++ spaces l.trail ↔ l.isKey name ∨ l.feigns name := by
  obtain ⟨hspace, hcolon, ds, hds⟩ := hname.chars
  have hword : ' ' ∉ name.toList ++ [':'] := by
    rw [List.mem_append, not_or]
    exact ⟨hspace, by decide⟩
  rw [prefix_append_spaces _ _ _ hword, Line.feigns, Line.isKey, List.isPrefixOf_iff_prefix]
  cases l.body with
  | mark | dash =>
    have hstart : ¬ name.toList ++ [':'] <+: [] := not_prefix_of_not_mem hname (by decide)
    refine iff_of_false (not_prefix_of_not_mem hname (by decide)) ?_
    rintro (h | h)
    · cases h
    · exact hstart h
  | scalar s => simp [Body.key?, Body.chars, Body.start]
  | key k =>
    simp only [Body.chars, Body.key?, Body.start, Option.any_some, beq_iff_eq]
    exact prefix_key_iff _ _ [] hcolon
  | pair k gap s =>
    simp only [Body.chars, Body.key?, Body.start, Option.any_some, beq_iff_eq]
    exact prefix_key_iff _ _ _ hcolon

end

theorem undash_body (l : Line) (hbody : l.body ≠ .dash) :
    undash (l.body.chars ++ spaces l.trail) = l.body.chars ++ spaces l.trail :=
  undash_eq_self _ (not_dash_body l.body hbody l.trail)

/-- a line of dashes alone is neither key -/
theorem not_mem_text (l : Line) (hbody : l.body = .dash) : 's' ∉ l.text := by
  have hspaces (n : Nat) : 's' ∉ spaces n := by
    intro h
    exact absurd (List.eq_of_mem_replicate h) (by decide)
  have hdashes : 's' ∉ l.lead.dashes.flatMap dashChars := by
    rw [List.mem_flatMap]
    rintro ⟨gap, _, h⟩
    rcases List.mem_cons.mp h with h | h
    · exact absurd h (by decide)
    · exact hspaces _ h
  rw [text_eq, hbody, Body.chars, List.mem_append, List.mem_append, not_or, not_or]
  exact ⟨hdashes, by decide, hspaces _⟩

theorem not_prefix_undash_dash {name : String} (hname : IsSearched name) (l : Line)
    (hbody : l.body = .dash) : ¬ name.toList ++ [':'] <+: undash l.text :=
  not_prefix_of_not_mem hname fun h => not_mem_text l hbody ((undash_suffix _).subset h)

/-- the search finds `sysctls` only in front of lines that start with it -/
theorem not_prefix_sysctls (l : Line) (hkey : l.isKey "sysctls" = false)
    (hfeigns : l.feigns "sysctls" = false) : ¬ "sysctls:".toList <+: undash l.text := by
  have hname : IsSearched "sysctls" := Or.inl rfl
  by_cases hbody : l.body = .dash
  · exact not_prefix_undash_dash hname l hbody
  · intro h
    rw [text_eq] at h
    have hstarts := prefix_of_undash rfl (undash_body l hbody) _ h
    rcases (prefix_body_iff hname l).mp hstarts with h | h
    · rw [hkey] at h
      cases h
    · rw [hfeigns] at h
      cases h

/-- where the search finds `string`, a key or text starts with it -/
theorem string_of_entry (l : Line) (hblank : l.body.start.head?.all (!isBlank ·) = true)
    (h : "string:".toList <+: entry l.text) :
    l.isKey "string" = true ∨ l.feigns "string" = true := by
  have hname : IsSearched "string" := Or.inr rfl
  by_cases hbody : l.body = .dash
  · have hmem : 's' ∉ entry l.text :=
      fun hmem => not_mem_text l hbody ((entry_suffix _).subset hmem)
    exact absurd h (not_prefix_of_not_mem hname hmem)
  · obtain ⟨c, cs, hcs, hc, _, hbrace⟩ := exists_body l hblank
    have hundash := undash_body l hbody
    rw [← prefix_body_iff hname l]
    rw [text_eq] at h
    rw [hcs, List.cons_append] at hundash h ⊢
    exact prefix_of_entry hc hbrace hundash rfl _ h

/-- inside the value of a `sysctls` key, the search finds `string` where it is the key -/
theorem entry_of_string (l : Line) (hblank : l.body.start.head?.all (!isBlank ·) = true)
    (hkey : l.isKey "string" = true) (hdashes : l.lead.dashes.dropLast.all (· == 0) = true) :
    "string:".toList <+: entry l.text := by
  have hname : IsSearched "string" := Or.inr rfl
  have hbody : l.body ≠ .dash := by
    intro h
    rw [Line.isKey, h] at hkey
    cases hkey
  obtain ⟨c, cs, hcs, hc, _, hbrace⟩ := exists_body l hblank
  have hundash := undash_body l hbody
  have hstarts := (prefix_body_iff hname l).mpr (Or.inl hkey)
  rw [text_eq]
  rw [hcs, List.cons_append] at hundash hstarts ⊢
  rw [entry_text hc hbrace hundash _ hdashes]
  exact hstarts

/-- what stands behind the colon of a `sysctls` key -/
theorem exists_behind_sysctls (l : Line) (hkey : l.isKey "sysctls" = true)
    (hdashes : l.lead.dashes.all (· == 0) = true) :
    ∃ cs, behind? "sysctls:".toList (undash l.text) = some cs ∧
      contains "string:".toList cs = contains "string:".toList l.value := by
  have hbody : l.body ≠ .dash := by
    intro h
    rw [Line.isKey, h] at hkey
    cases hkey
  have htext : undash l.text = l.body.chars ++ spaces l.trail := by
    rw [text_eq, undash_dashes (undash_body l hbody) _ hdashes]
  have hbehind (cs : List Char) :
      behind? "sysctls:".toList ("sysctls:".toList ++ cs) = some cs := rfl
  have hword : ' ' ∉ "string:".toList := by decide
  have hne : "string:".toList ≠ [] := by decide
  obtain ⟨lead, body, trail⟩ := l
  rw [htext]
  cases body with
  | mark | dash | scalar s => cases hkey
  | key k =>
    have hk : k.chars = "sysctls".toList := eq_of_beq hkey
    refine ⟨spaces trail, ?_, ?_⟩
    · rw [← hbehind (spaces trail), Body.chars, hk]
      rfl
    · have h := contains_spaces_append _ hword hne trail []
      rwa [List.append_nil] at h
  | pair k gap s =>
    have hk : k.chars = "sysctls".toList := eq_of_beq hkey
    refine ⟨spaces (gap + 1) ++ s.chars ++ spaces trail, ?_, ?_⟩
    · rw [← hbehind (spaces (gap + 1) ++ s.chars ++ spaces trail), Body.chars, hk,
        List.append_assoc]
      rfl
    · rw [List.append_assoc, contains_spaces_append _ hword hne, contains_append_spaces _ hword hne]
      rfl

/-- what the search remembers behind a line -/
def after (seen : Option Nat) (l : Line) : Option Nat :=
  if l.isKey "sysctls" then some l.lead.indent else seen.filter (l.isBelow ·)

/-- The search finds the former name in a clear line if the line starts with it and seems to belong
to a `sysctls` key, and remembers any such key on it. -/
theorem usedFrom_clear (outer seen : Option Nat) (l : Line) (hclear : l.isClear outer = true)
    (rest : List (List Char)) : usedFrom seen (l.chars :: rest) = true ↔
      (l.isKey "sysctls" = false ∧ (seen.filter (l.isBelow ·)).isSome = true ∧
        "string:".toList <+: entry l.text)
        ∨ usedFrom (after seen l) rest = true := by
  simp only [Line.isClear, Bool.and_eq_true, Bool.not_eq_true', Bool.or_eq_true] at hclear
  obtain ⟨⟨⟨hblank, hfeigns⟩, hsysctls⟩, _⟩ := hclear
  rw [usedFrom_line seen l hblank, after]
  cases hkey : l.isKey "sysctls" with
  | true =>
    rw [hkey] at hsysctls
    obtain h | ⟨⟨_, hdashes⟩, hvalue⟩ := hsysctls
    · cases h
    · obtain ⟨cs, hbehind, hcontains⟩ := exists_behind_sysctls l hkey hdashes
      rw [hbehind, if_pos rfl]
      show (contains "string:".toList cs || usedFrom (some l.lead.indent) rest) = true ↔ _
      rw [hcontains, hvalue, Bool.false_or]
      exact ⟨Or.inr, Or.rec (fun h => Bool.noConfusion h.1) id⟩
  | false =>
    have hbehind : behind? "sysctls:".toList (undash l.text) = none := by
      rw [← Option.not_isSome_iff_eq_none, isSome_behind?, List.isPrefixOf_iff_prefix]
      exact not_prefix_sysctls l hkey hfeigns
    rw [hbehind, if_neg Bool.false_ne_true, ← List.isPrefixOf_iff_prefix, ← isSome_behind?]
    show (_ && _ || usedFrom (seen.filter (l.isBelow ·)) rest) = true ↔ _
    rw [Bool.or_eq_true, Bool.and_eq_true]
    exact or_congr_left (and_iff_right rfl).symm

theorem entry_iff (o : Nat) (l : Line) (hclear : l.isClear (some o) = true) :
    "string:".toList <+: entry l.text ↔ l.isKey "string" = true := by
  simp only [Line.isClear, Option.all_some, Bool.and_eq_true, Bool.not_eq_true'] at hclear
  obtain ⟨⟨⟨hblank, _⟩, _⟩, ⟨_, hfeigns⟩, hdashes⟩ := hclear
  refine ⟨fun h => ?_, fun h => entry_of_string l hblank h hdashes⟩
  rcases string_of_entry l hblank h with h | h
  · exact h
  · rw [hfeigns] at h
    cases h

/-- a `sysctls` key on a clear line is in the value of no other -/
theorem outer_of_sysctls {outer : Option Nat} {l : Line} (hclear : l.isClear outer = true)
    (hkey : l.isKey "sysctls" = true) : outer = none := by
  simp only [Line.isClear, hkey, Bool.and_eq_true, Bool.or_eq_true, Bool.not_eq_true'] at hclear
  obtain ⟨⟨_, h | ⟨⟨hnone, _⟩, _⟩⟩, _⟩ := hclear
  · cases h
  · exact Option.isNone_iff_eq_none.mp hnone

/-- **What the search makes of a clear line is right** if it remembers the `sysctls` key whose value
the line is in, as long as no dash is in front of such a key. -/
theorem usedFrom_exact (outer seen : Option Nat) (l : Line) (hclear : l.isClear outer = true)
    (hdash : l.isUndashed = true) (hseen : seen.filter (l.isBelow ·) = outer)
    (rest : List (List Char)) : usedFrom seen (l.chars :: rest) = true ↔
      (outer.isSome = true ∧ l.isKey "string" = true) ∨ usedFrom (l.inner outer) rest = true := by
  rw [usedFrom_clear outer seen l hclear, hseen, after, Line.inner, hseen]
  cases hkey : l.isKey "sysctls" with
  | true =>
    obtain rfl := outer_of_sysctls hclear hkey
    rw [Line.isUndashed, hkey, Bool.not_true, Bool.false_or, List.isEmpty_iff] at hdash
    have hcolumn : l.lead.column = l.lead.indent := by
      rw [Lead.column, hdash]
      rfl
    rw [if_pos rfl, if_pos rfl, hcolumn]
    exact or_congr_left (iff_of_false (fun h => Bool.noConfusion h.1) fun h => Bool.noConfusion h.1)
  | false =>
    rw [if_neg Bool.false_ne_true, if_neg Bool.false_ne_true]
    refine or_congr_left ((and_iff_right rfl).trans ?_)
    cases outer with
    | none => exact iff_of_false (fun h => Bool.noConfusion h.1) fun h => Bool.noConfusion h.1
    | some o => exact and_congr_right fun _ => entry_iff o l hclear

/-- What the search remembers, if the lines are in the value of a key, is the indentation of a line
that starts no further right. -/
def Covers (outer seen : Option Nat) : Prop := ∀ o, outer = some o → ∃ i, seen = some i ∧ i ≤ o

theorem Covers.filter_isBelow {outer seen : Option Nat} {l : Line} (h : Covers outer seen)
    (hclear : l.isClear outer = true) : Covers outer (seen.filter (l.isBelow ·)) := by
  rintro o rfl
  obtain ⟨i, rfl, hi⟩ := h o rfl
  have hbelow : l.isBelow i = true := by
    simp only [Line.isClear, Option.all_some, Bool.and_eq_true] at hclear
    have ho : l.isBelow o = true := hclear.2.1.1
    simp only [Line.isBelow, Bool.or_eq_true, Bool.and_eq_true, decide_eq_true_eq] at ho ⊢
    rcases ho with hlt | ⟨rfl, hitem⟩
    · exact Or.inl (by omega)
    · exact (Nat.lt_or_eq_of_le hi).imp_right fun heq => ⟨heq, hitem⟩
  exact ⟨i, Option.filter_some_pos hbelow, hi⟩

theorem Covers.after {outer seen : Option Nat} {l : Line} (h : Covers outer seen)
    (hclear : l.isClear outer = true) : Covers (l.inner outer) (after seen l) := by
  rw [LegacyKey.after, Line.inner]
  split
  · rintro o ⟨⟩
    exact ⟨l.lead.indent, rfl, Nat.le_add_right _ _⟩
  · exact h.filter_isBelow hclear

/-- in the value of a key the name is found, and outside only what starts like it is taken for it -/
theorem usedFrom_covered (outer seen : Option Nat) (l : Line) (hclear : l.isClear outer = true)
    (hseen : Covers outer seen) (rest : List (List Char)) :
    ((outer.isSome = true ∧ l.isKey "string" = true) ∨ usedFrom (after seen l) rest = true →
        usedFrom seen (l.chars :: rest) = true) ∧
      ((outer = none → l.isKey "string" = false ∧ l.feigns "string" = false) →
        usedFrom seen (l.chars :: rest) = true →
          (outer.isSome = true ∧ l.isKey "string" = true) ∨ usedFrom (after seen l) rest = true) := by
  have hblank : l.body.start.head?.all (!isBlank ·) = true := by
    simp only [Line.isClear, Bool.and_eq_true] at hclear
    exact hclear.1.1.1
  rw [usedFrom_clear outer seen l hclear]
  constructor
  · refine Or.imp_left fun ⟨hsome, hstring⟩ => ?_
    obtain ⟨o, rfl⟩ := Option.isSome_iff_exists.mp hsome
    obtain ⟨i, hi, _⟩ := hseen.filter_isBelow hclear o rfl
    refine ⟨Bool.eq_false_iff.mpr fun hkey => ?_, by rw [hi]; rfl,
      (entry_iff o l hclear).mpr hstring⟩
    cases outer_of_sysctls hclear hkey
  · refine fun hstray => Or.imp_left fun ⟨_, _, hentry⟩ => ?_
    cases outer with
    | none =>
      obtain ⟨hstring, hfeigns⟩ := hstray rfl
      rcases string_of_entry l hblank hentry with h | h
      · rw [hstring] at h
        cases h
      · rw [hfeigns] at h
        cases h
    | some o => exact ⟨rfl, (entry_iff o l hclear).mp hentry⟩

end LegacyKey

end Netlab
