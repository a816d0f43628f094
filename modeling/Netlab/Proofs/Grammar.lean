import Mathlib.Data.List.Basic
import Netlab.Link.Basic

/-!
# The grammar of links

Type and arguments of an interface, without the blank characters around them, either are written for
a link (`Link.Written`), or have a known type and arguments of the wrong shape (`Link.Misshapen`),
or have a type that no link has.  Parsing tells which.

* `Link.written_or_misshapen`  there is no fourth case;
* `Link.parse_eq_ok_iff`       the interfaces that have a link, and which;
* `Link.parse_eq_malformed_iff`  those whose arguments are wrong, and how;
* `Link.parse_grammar`         all of it, and that blank characters around the arguments are free.
-/

namespace Netlab

/-! ## blank characters around a text -/

namespace Text

theorem trimStart_padded (front cs : List Char) (hfront : ∀ c ∈ front, isBlank c = true)
    (hhead : ∀ c ∈ cs.head?, isBlank c = false) : trimStart (front ++ cs) = cs := by
  rw [trimStart, List.dropWhile_append_of_pos hfront]
  cases cs with
  | nil => rfl
  | cons c cs => exact List.dropWhile_cons_of_neg (Bool.eq_false_iff.mp (hhead c rfl))

theorem trimEnd_padded (cs back : List Char) (hback : ∀ c ∈ back, isBlank c = true)
    (hlast : ∀ c ∈ cs.getLast?, isBlank c = false) : trimEnd (cs ++ back) = cs := by
  have hreverse : trimStart (back.reverse ++ cs.reverse) = cs.reverse :=
    trimStart_padded _ _ (fun c hc => hback c (List.mem_reverse.mp hc))
      (fun c hc => hlast c (List.head?_reverse ▸ hc))
  rw [← List.reverse_reverse (cs ++ back), trimEnd_reverse, List.reverse_append, hreverse,
    List.reverse_reverse]

end Text

namespace Link

/-! ## the grammar -/

/-- a text that can be an end of a direct link -/
def IsEnd (s : String) : Prop := s ≠ "" ∧ '#' ∉ s.toList

/-- the types of the four kinds of links -/
def types : List String := ["direct", "bridge", "veth", "phys"]

/-- the type and the arguments that are written for a link -/
inductive Written : String → String → Link → Prop
  | direct (p q : String) (hp : IsEnd p) (hq : IsEnd q) :
    Written "direct" (p ++ "#" ++ q) (.direct p q)
  | bridge (switch : String) (h : switch ≠ "") : Written "bridge" switch (.bridge switch)
  | veth (peer : String) (h : peer ≠ "") : Written "veth" peer (.veth peer)
  | phys (args : String) : Written "phys" args .phys

/-- arguments that do not have the shape that a type asks for, and what is wrong with them -/
inductive Misshapen : String → String → Malformation → Prop
  | noDelimiter (args : String) (h : '#' ∉ args.toList) : Misshapen "direct" args .noDelimiter
  | emptyEnd (p q : String) (hp : '#' ∉ p.toList) (h : p = "" ∨ q = "") :
    Misshapen "direct" (p ++ "#" ++ q) .emptyEnd
  | manyDelimiters (p q : String) (hp : IsEnd p) (hq : '#' ∈ q.toList) :
    Misshapen "direct" (p ++ "#" ++ q) .manyDelimiters
  | noSwitch : Misshapen "bridge" "" .noSwitch
  | noPeer : Misshapen "veth" "" .noPeer

theorem Misshapen.mem_types {type args : String} {reason : Malformation}
    (h : Misshapen type args reason) : type ∈ types := by
  cases h <;> decide

theorem written_bridge_iff (type args switch : String) :
    Written type args (.bridge switch) ↔ type = "bridge" ∧ args = switch ∧ switch ≠ "" := by
  constructor
  · intro h
    cases h with
    | bridge _ hset => exact ⟨rfl, rfl, hset⟩
  · rintro ⟨rfl, rfl, hset⟩
    exact .bridge args hset

/-! ## the ends of a direct link -/

theorem splitAt?_append (d : Char) (a b : List Char) (h : d ∉ a) :
    splitAt? d (a ++ d :: b) = some (a, b) := by
  induction a with
  | nil => exact if_pos rfl
  | cons c a ih =>
    rw [List.mem_cons, not_or] at h
    rw [List.cons_append, splitAt?, if_neg (Ne.symm h.1), ih h.2]
    rfl

theorem splitAt?_of_not_mem (d : Char) (cs : List Char) (h : d ∉ cs) : splitAt? d cs = none := by
  induction cs with
  | nil => rfl
  | cons c cs ih =>
    rw [List.mem_cons, not_or] at h
    rw [splitAt?, if_neg (Ne.symm h.1), ih h.2]
    rfl

theorem toList_ends (p q : String) : (p ++ "#" ++ q).toList = p.toList ++ '#' :: q.toList := by
  simp

/-- a text with a delimiter is cut at the first one -/
theorem exists_ends (args : String) (h : '#' ∈ args.toList) :
    ∃ p q : String, args = p ++ "#" ++ q ∧ '#' ∉ p.toList := by
  obtain ⟨a, b, hargs, ha⟩ := List.eq_append_cons_of_mem h
  refine ⟨String.ofList a, String.ofList b, ?_, by rwa [String.toList_ofList]⟩
  rw [← String.toList_inj, toList_ends, String.toList_ofList, String.toList_ofList, hargs]

theorem directEnds_noDelimiter (args : String) (h : '#' ∉ args.toList) :
    directEnds args.toList = .error .noDelimiter := by
  rw [directEnds, splitAt?_of_not_mem '#' _ h]

theorem directEnds_cut (p q : String) (hp : '#' ∉ p.toList) :
    directEnds (p ++ "#" ++ q).toList
      = if p = "" ∨ q = "" then .error .emptyEnd
        else if '#' ∈ q.toList then .error .manyDelimiters
        else .ok (.direct p q) := by
  rw [directEnds, toList_ends, splitAt?_append '#' _ _ hp]
  simp

/-! ## parsing -/

section
variable {node : String} {i : Interface} {type args : String}
variable (htype : Text.trim i.type = type) (hargs : Text.trim (i.args.getD "") = args)
include htype

theorem parse_of_not_mem (h : type ∉ types) :
    parse node i = .error (.unsupportedLinkKind node i.name type) := by
  simp only [types, List.mem_cons, List.not_mem_nil, or_false, not_or] at h
  obtain ⟨hdirect, hbridge, hveth, hphys⟩ := h
  rw [parse, htype]
  split
  · exact absurd rfl hdirect
  · exact absurd rfl hbridge
  · exact absurd rfl hveth
  · exact absurd rfl hphys
  · rfl

include hargs

theorem parse_of_written {l : Link} (h : Written type args l) : parse node i = .ok l := by
  cases h with
  | direct p q hp hq =>
    have hset : ¬ (p = "" ∨ q = "") := not_or.mpr ⟨hp.1, hq.1⟩
    rw [parse, htype]
    show (directEnds (Text.trim (i.args.getD "")).toList).mapError _ = _
    rw [hargs, directEnds_cut p q hp.2, if_neg hset, if_neg hq.2]
    rfl
  | bridge switch hset | veth peer hset =>
    rw [parse, htype, hargs]
    exact if_neg hset
  | phys =>
    rw [parse, htype]
    rfl

theorem parse_of_misshapen {reason : Malformation} (h : Misshapen type args reason) :
    parse node i = .error (.malformedArgument node i.name reason) := by
  have hdirect (reason : Malformation) (hends : directEnds args.toList = .error reason)
      (htype : Text.trim i.type = "direct") :
      parse node i = .error (.malformedArgument node i.name reason) := by
    rw [parse, htype]
    show (directEnds (Text.trim (i.args.getD "")).toList).mapError _ = _
    rw [hargs, hends]
    rfl
  cases h with
  | noDelimiter _ h => exact hdirect _ (directEnds_noDelimiter args h) htype
  | emptyEnd p q hp h => exact hdirect _ (by rw [directEnds_cut p q hp, if_pos h]) htype
  | manyDelimiters p q hp hq =>
    refine hdirect _ ?_ htype
    have hset : ¬ (p = "" ∨ q = "") := by
      rintro (h | rfl)
      · exact hp.1 h
      · cases hq
    rw [directEnds_cut p q hp.2, if_neg hset, if_pos hq]
  | noSwitch | noPeer =>
    rw [parse, htype, hargs]
    rfl

end

/-- arguments of a known type are written for a link or have the wrong shape -/
theorem written_or_misshapen (type args : String) (h : type ∈ types) :
    (∃ l, Written type args l) ∨ ∃ reason, Misshapen type args reason := by
  simp only [types, List.mem_cons, List.not_mem_nil, or_false] at h
  rcases h with rfl | rfl | rfl | rfl
  · by_cases hmem : '#' ∈ args.toList
    · obtain ⟨p, q, rfl, hp⟩ := exists_ends args hmem
      by_cases hempty : p = "" ∨ q = ""
      · exact Or.inr ⟨_, .emptyEnd p q hp hempty⟩
      · obtain ⟨hpset, hqset⟩ := not_or.mp hempty
        by_cases hq : '#' ∈ q.toList
        · exact Or.inr ⟨_, .manyDelimiters p q ⟨hpset, hp⟩ hq⟩
        · exact Or.inl ⟨_, .direct p q ⟨hpset, hp⟩ ⟨hqset, hq⟩⟩
    · exact Or.inr ⟨_, .noDelimiter args hmem⟩
  · by_cases hempty : args = ""
    · subst hempty
      exact Or.inr ⟨_, .noSwitch⟩
    · exact Or.inl ⟨_, .bridge args hempty⟩
  · by_cases hempty : args = ""
    · subst hempty
      exact Or.inr ⟨_, .noPeer⟩
    · exact Or.inl ⟨_, .veth args hempty⟩
  · exact Or.inl ⟨_, .phys args⟩

section
variable (node : String) (i : Interface)

/-- what parsing gives, by the three cases -/
theorem parse_cases :
    (Text.trim i.type ∉ types ∧
        parse node i = .error (.unsupportedLinkKind node i.name (Text.trim i.type))) ∨
      (∃ l, Written (Text.trim i.type) (Text.trim (i.args.getD "")) l ∧ parse node i = .ok l) ∨
      ∃ reason, Misshapen (Text.trim i.type) (Text.trim (i.args.getD "")) reason ∧
        parse node i = .error (.malformedArgument node i.name reason) := by
  by_cases h : Text.trim i.type ∈ types
  · obtain ⟨l, hl⟩ | ⟨reason, hr⟩ := written_or_misshapen _ (Text.trim (i.args.getD "")) h
    · exact Or.inr (Or.inl ⟨l, hl, parse_of_written rfl rfl hl⟩)
    · exact Or.inr (Or.inr ⟨reason, hr, parse_of_misshapen rfl rfl hr⟩)
  · exact Or.inl ⟨h, parse_of_not_mem rfl h⟩

theorem parse_eq_ok_iff (l : Link) :
    parse node i = .ok l ↔ Written (Text.trim i.type) (Text.trim (i.args.getD "")) l := by
  refine ⟨fun h => ?_, parse_of_written rfl rfl⟩
  obtain ⟨_, hparse⟩ | ⟨l', hl, hparse⟩ | ⟨_, _, hparse⟩ := parse_cases node i
  · rw [hparse] at h
    cases h
  · rw [hparse] at h
    rwa [← Except.ok.inj h]
  · rw [hparse] at h
    cases h

theorem parse_eq_malformed_iff (reason : Malformation) :
    parse node i = .error (.malformedArgument node i.name reason)
      ↔ Misshapen (Text.trim i.type) (Text.trim (i.args.getD "")) reason := by
  refine ⟨fun h => ?_, parse_of_misshapen rfl rfl⟩
  obtain ⟨_, hparse⟩ | ⟨_, _, hparse⟩ | ⟨reason', hr, hparse⟩ := parse_cases node i
  · rw [hparse] at h
    cases h
  · rw [hparse] at h
    cases h
  · rw [hparse] at h
    cases h
    exact hr

theorem parse_eq_unsupported_iff :
    parse node i = .error (.unsupportedLinkKind node i.name (Text.trim i.type))
      ↔ Text.trim i.type ∉ types := by
  refine ⟨fun h hmem => ?_, parse_of_not_mem rfl⟩
  obtain ⟨hnot, _⟩ | ⟨_, _, hparse⟩ | ⟨_, _, hparse⟩ := parse_cases node i
  · exact hnot hmem
  · rw [hparse] at h
    cases h
  · rw [hparse] at h
    cases h

/-- The wrong shapes are all that remains of the known types. -/
theorem exists_misshapen_iff :
    (∃ reason, Misshapen (Text.trim i.type) (Text.trim (i.args.getD "")) reason)
      ↔ Text.trim i.type ∈ types ∧
        ∀ l, ¬ Written (Text.trim i.type) (Text.trim (i.args.getD "")) l := by
  constructor
  · rintro ⟨reason, hr⟩
    refine ⟨hr.mem_types, fun l hl => ?_⟩
    have hok : parse "" i = .ok l := parse_of_written rfl rfl hl
    rw [parse_of_misshapen rfl rfl hr] at hok
    cases hok
  · rintro ⟨hmem, hnone⟩
    obtain ⟨l, hl⟩ | hr := written_or_misshapen _ (Text.trim (i.args.getD "")) hmem
    · exact absurd hl (hnone l)
    · exact hr

/-- blank characters in front of the first end and behind the second are not part of them -/
theorem trim_ends (p q front back : String) (hfront : ∀ c ∈ front.toList, Text.isBlank c = true)
    (hback : ∀ c ∈ back.toList, Text.isBlank c = true) (hp : IsEnd p) (hq : IsEnd q)
    (hhead : ∀ c ∈ p.toList.head?, Text.isBlank c = false)
    (hlast : ∀ c ∈ q.toList.getLast?, Text.isBlank c = false) :
    Text.trim (front ++ (p ++ "#" ++ q) ++ back) = p ++ "#" ++ q := by
  have hpset : p.toList ≠ [] := fun h => hp.1 (String.toList_eq_nil_iff.mp h)
  have hqset : q.toList ≠ [] := fun h => hq.1 (String.toList_eq_nil_iff.mp h)
  rw [← String.toList_inj, Text.trim_toList, String.toList_append, String.toList_append,
    toList_ends, List.append_assoc, Text.trimStart_padded front.toList _ hfront,
    Text.trimEnd_padded _ back.toList hback]
  · intro c hc
    rw [List.getLast?_append_cons, List.getLast?_cons_of_ne_nil hqset] at hc
    exact hlast c hc
  · intro c hc
    rw [List.append_assoc, List.head?_append_of_ne_nil _ hpset] at hc
    exact hhead c hc

/-- **What parsing accepts.**  The type and the arguments of an interface, trimmed, give a link
exactly if they are written for it.  A type that is none of the four is told with the interface; all
that remains is told as malformed arguments of the interface, with what is wrong.  So the two ends
of a direct link are read back from any text of them with blank characters around it. -/
theorem parse_grammar :
    (∀ l, parse node i = .ok l ↔ Written (Text.trim i.type) (Text.trim (i.args.getD "")) l) ∧
    (parse node i = .error (.unsupportedLinkKind node i.name (Text.trim i.type))
      ↔ Text.trim i.type ∉ types) ∧
    (∀ reason, parse node i = .error (.malformedArgument node i.name reason)
      ↔ Misshapen (Text.trim i.type) (Text.trim (i.args.getD "")) reason) ∧
    ((∃ reason, parse node i = .error (.malformedArgument node i.name reason))
      ↔ Text.trim i.type ∈ types ∧
        ∀ l, ¬ Written (Text.trim i.type) (Text.trim (i.args.getD "")) l) ∧
    ∀ p q front back : String, IsEnd p → IsEnd q →
      (∀ c ∈ p.toList.head?, Text.isBlank c = false) →
      (∀ c ∈ q.toList.getLast?, Text.isBlank c = false) →
      (∀ c ∈ front.toList, Text.isBlank c = true) → (∀ c ∈ back.toList, Text.isBlank c = true) →
      Text.trim i.type = "direct" → i.args = some (front ++ (p ++ "#" ++ q) ++ back) →
      parse node i = .ok (.direct p q) := by
  refine ⟨parse_eq_ok_iff node i, parse_eq_unsupported_iff node i, parse_eq_malformed_iff node i,
    ?_, ?_⟩
  · rw [← exists_misshapen_iff]
    exact exists_congr (parse_eq_malformed_iff node i)
  · intro p q front back hp hq hhead hlast hfront hback htype hargs
    have htrim := trim_ends p q front back hfront hback hp hq hhead hlast
    refine parse_of_written htype ?_ (.direct p q hp hq)
    rw [hargs, Option.getD_some, htrim]

end

namespace Padded

/-- an interface with blank characters around its type and its arguments, and within the latter -/
def interface : Interface where
  name := "net0"
  type := "\tdirect "
  args := some "\u00a0 C 1 # net0\n"

end Padded

/-- blank characters next to the delimiter belong to the ends -/
theorem parse_grammar_padded :
    IsEnd "C 1 " ∧ IsEnd " net0" ∧ (∀ c ∈ "C 1 ".toList.head?, Text.isBlank c = false) ∧
      (∀ c ∈ " net0".toList.getLast?, Text.isBlank c = false) ∧
      (∀ c ∈ "\u00a0 ".toList, Text.isBlank c = true) ∧
      (∀ c ∈ "\n".toList, Text.isBlank c = true) ∧
      Text.trim Padded.interface.type = "direct" ∧
      Padded.interface.args = some ("\u00a0 " ++ ("C 1 " ++ "#" ++ " net0") ++ "\n") ∧
      parse "R1" Padded.interface = .ok (.direct "C 1 " " net0") := by
  have hp : IsEnd "C 1 " := ⟨by decide, by decide⟩
  have hq : IsEnd " net0" := ⟨by decide, by decide⟩
  have hhead : ∀ c ∈ "C 1 ".toList.head?, Text.isBlank c = false := by
    intro c hc
    have hfirst : "C 1 ".toList.head? = some 'C' := by decide
    obtain rfl := Option.some.inj (hfirst.symm.trans hc)
    decide
  have hlast : ∀ c ∈ " net0".toList.getLast?, Text.isBlank c = false := by
    intro c hc
    have hzero : " net0".toList.getLast? = some '0' := by decide
    obtain rfl := Option.some.inj (hzero.symm.trans hc)
    decide
  have hfront : ∀ c ∈ "\u00a0 ".toList, Text.isBlank c = true := List.all_eq_true.mp (by decide)
  have hback : ∀ c ∈ "\n".toList, Text.isBlank c = true := List.all_eq_true.mp (by decide)
  have htype : Text.trim Padded.interface.type = "direct" := by decide +kernel
  obtain ⟨_, _, _, _, hends⟩ := parse_grammar "R1" Padded.interface
  exact ⟨hp, hq, hhead, hlast, hfront, hback, htype, rfl,
    hends _ _ _ _ hp hq hhead hlast hfront hback htype rfl⟩

end Link

end Netlab
