import Mathlib.Data.List.TakeWhile
import Netlab.Proofs.Yaml.Outline
import Netlab.Text.Blank
import Netlab.Topology.LegacyKey

/-!
# Words behind dashes and spaces

How the search for the former name of the sysctl field takes dashes and spaces off the front of a
line, and which word it then finds there: `prefix_of_entry` and `entry_text`.
-/

namespace Netlab.LegacyKey

open Text (isBlank trimStart)
open Yaml (spaces dashChars)

/-! ## words and spaces -/

theorem bytes_append (a b : List Char) : bytes (a ++ b) = bytes a + bytes b := by
  induction a with
  | nil => exact (Nat.zero_add _).symm
  | cons c a ih => rw [List.cons_append, bytes, bytes, ih, Nat.add_assoc]

theorem bytes_spaces (n : Nat) : bytes (spaces n) = n := by
  induction n with
  | zero => rfl
  | succ n ih =>
    rw [spaces, List.replicate_succ, bytes, ← spaces, ih]
    exact Nat.add_comm 1 n

/-- spaces behind a text do not complete a word -/
theorem prefix_append_spaces (word cs : List Char) (n : Nat) (hword : ' ' ∉ word) :
    word <+: cs ++ spaces n ↔ word <+: cs := by
  refine ⟨fun h => ?_, fun h => h.trans (List.prefix_append cs _)⟩
  rcases List.prefix_or_prefix_of_prefix h (List.prefix_append cs (spaces n)) with hcs | ⟨t, rfl⟩
  · exact hcs
  · cases t with
    | nil => exact ⟨[], by simp⟩
    | cons c t =>
      have hspaces : c :: t <+: spaces n := (List.prefix_append_right_inj cs).mp h
      have hc : c = ' ' := List.eq_of_mem_replicate (hspaces.subset (List.mem_cons_self ..))
      subst hc
      simp at hword

/-- a text that starts with a key and its colon starts with another key and its colon only if the
keys are the same, or the first one holds the other with its colon -/
theorem prefix_key_iff (name k rest : List Char) (hname : ':' ∉ name) :
    name ++ [':'] <+: k ++ ':' :: rest ↔ k = name ∨ name ++ [':'] <+: k := by
  constructor
  · intro h
    rcases List.prefix_or_prefix_of_prefix h (List.prefix_append k (':' :: rest)) with hk | ⟨t, ht⟩
    · exact Or.inr hk
    · rw [← ht, List.prefix_append_right_inj] at h
      cases t with
      | nil =>
        rw [List.append_nil] at ht
        exact Or.inr (ht ▸ List.prefix_refl k)
      | cons c t =>
        obtain rfl : c = ':' := (List.cons_prefix_cons.mp h).1
        -- the only colon is at the end
        rcases List.eq_nil_or_concat t with rfl | ⟨t, d, rfl⟩
        · exact Or.inl (List.append_inj_left' ht rfl)
        · rw [List.concat_eq_append, ← List.cons_append, ← List.append_assoc] at ht
          have hfront : k ++ ':' :: t = name := List.append_inj_left' ht rfl
          exact absurd (hfront ▸ List.mem_append_right k (List.mem_cons_self ..)) hname
  · rintro (rfl | h)
    · exact ⟨rest, by simp⟩
    · exact h.trans (List.prefix_append k _)

section
variable (word : List Char) (hword : ' ' ∉ word) (hne : word ≠ [])
include hword hne

theorem not_isPrefixOf_space (cs : List Char) : word.isPrefixOf (' ' :: cs) = false := by
  rw [Bool.eq_false_iff, ne_eq, List.isPrefixOf_iff_prefix, List.prefix_cons_iff]
  rintro (rfl | ⟨t, rfl, _⟩)
  · exact hne rfl
  · simp at hword

theorem contains_spaces_append (n : Nat) (cs : List Char) :
    contains word (spaces n ++ cs) = contains word cs := by
  induction n with
  | zero => rfl
  | succ n ih =>
    rw [spaces, List.replicate_succ, List.cons_append, contains,
      not_isPrefixOf_space word hword hne, Bool.false_or, ← spaces, ih]

theorem contains_append_spaces (cs : List Char) (n : Nat) :
    contains word (cs ++ spaces n) = contains word cs := by
  induction cs with
  | nil =>
    have h := contains_spaces_append word hword hne n []
    rwa [List.append_nil] at h
  | cons c cs ih =>
    have hstarts : word.isPrefixOf (c :: (cs ++ spaces n)) = word.isPrefixOf (c :: cs) := by
      rw [Bool.eq_iff_iff, List.isPrefixOf_iff_prefix, List.isPrefixOf_iff_prefix]
      exact prefix_append_spaces word (c :: cs) n hword
    rw [List.cons_append, contains, contains, ih, hstarts]

end

theorem isSome_behind? (word cs : List Char) : (behind? word cs).isSome = word.isPrefixOf cs := by
  rw [behind?]
  split
  · next h => exact h.symm
  · next h => exact (Bool.eq_false_iff.mpr h).symm

theorem trimStart_spaces (n : Nat) (cs : List Char) :
    trimStart (spaces n ++ cs) = trimStart cs := by
  refine List.dropWhile_append_of_pos fun c hc => ?_
  rw [List.eq_of_mem_replicate hc]
  decide

theorem trimStart_of_not_blank {c : Char} {cs : List Char} (hc : isBlank c = false) :
    trimStart (c :: cs) = c :: cs := by
  rw [Text.trimStart_cons, hc, if_neg Bool.false_ne_true]

/-! ## dashes -/

theorem undash_eq_self (cs : List Char) (h : ¬ ['-', ' '] <+: cs) : undash cs = cs := by
  unfold undash
  split
  · exact absurd ⟨_, rfl⟩ h
  · rfl

theorem undash_suffix (cs : List Char) : undash cs <:+ cs := by
  fun_induction undash cs with
  | case1 cs ih => exact ih.trans ⟨['-', ' '], rfl⟩
  | case2 cs => exact List.suffix_refl cs

theorem undash_dashChars (gap : Nat) (cs : List Char) :
    undash (dashChars gap ++ cs) = if gap = 0 then undash cs else spaces gap ++ cs := by
  cases gap with
  | zero => rfl
  | succ gap =>
    rw [if_neg (Nat.succ_ne_zero gap)]
    show undash (spaces (gap + 1) ++ cs) = _
    refine undash_eq_self _ ?_
    rintro ⟨t, ht⟩
    exact absurd (List.cons.inj ht).1 (by decide)

theorem eq_of_head_starts {word : List Char} {a c : Char} {cs : List Char}
    (hword : word.head? = some a) (h : word <+: c :: cs) : a = c := by
  cases word with
  | nil => cases hword
  | cons b word =>
    obtain rfl := Option.some.inj hword
    exact (List.cons_prefix_cons.mp h).1

/-- dashes with one space behind each are taken off -/
theorem undash_dashes {cs : List Char} (hcs : undash cs = cs) (dashes : List Nat)
    (h : dashes.all (· == 0) = true) : undash (dashes.flatMap dashChars ++ cs) = cs := by
  induction dashes with
  | nil => rwa [List.flatMap_nil, List.nil_append]
  | cons gap dashes ih =>
    rw [List.all_cons, Bool.and_eq_true, beq_iff_eq] at h
    rw [List.flatMap_cons, List.append_assoc, undash_dashChars, if_pos h.1]
    exact ih h.2

/-- a name in front of a line is in front of its body -/
theorem prefix_of_undash {word cs : List Char} (hword : word.head? = some 's')
    (hcs : undash cs = cs) (dashes : List Nat)
    (h : word <+: undash (dashes.flatMap dashChars ++ cs)) : word <+: cs := by
  induction dashes with
  | nil => rwa [List.flatMap_nil, List.nil_append, hcs] at h
  | cons gap dashes ih =>
    rw [List.flatMap_cons, List.append_assoc, undash_dashChars] at h
    split at h
    · exact ih h
    · next hgap =>
      obtain ⟨n, rfl⟩ := Nat.exists_eq_succ_of_ne_zero hgap
      exact absurd (eq_of_head_starts hword h) (by decide)

/-! ## entries -/

/-- where the search looks for `string`: behind dashes, braces and blank characters -/
def entry (cs : List Char) : List Char := trimStart ((undash cs).dropWhile (· = '\x7b'))

theorem entry_suffix (cs : List Char) : entry cs <:+ cs :=
  (List.dropWhile_suffix _).trans ((List.dropWhile_suffix _).trans (undash_suffix cs))

theorem entry_dashChars (gap : Nat) (cs : List Char) :
    entry (dashChars gap ++ cs) = if gap = 0 then entry cs else trimStart cs := by
  rw [entry, undash_dashChars]
  split
  · rfl
  · next hgap =>
    obtain ⟨n, rfl⟩ := Nat.exists_eq_succ_of_ne_zero hgap
    rw [← trimStart_spaces (n + 1) cs]
    exact congrArg trimStart (List.dropWhile_cons_of_neg (by decide))

section
variable {c : Char} {cs : List Char} (hblank : isBlank c = false) (hbrace : c ≠ '\x7b')
  (hcs : undash (c :: cs) = c :: cs)
include hblank hbrace hcs

theorem entry_body : entry (c :: cs) = c :: cs := by
  rw [entry, hcs, List.dropWhile_cons_of_neg (by simpa using hbrace), trimStart_of_not_blank hblank]

/-- a name behind the dashes of a line is in front of its body, however they are spaced -/
theorem prefix_of_entry {word : List Char} (hword : word.head? = some 's') (dashes : List Nat)
    (h : word <+: entry (dashes.flatMap dashChars ++ c :: cs)) : word <+: c :: cs := by
  induction dashes with
  | nil => rwa [List.flatMap_nil, List.nil_append, entry_body hblank hbrace hcs] at h
  | cons gap dashes ih =>
    rw [List.flatMap_cons, List.append_assoc, entry_dashChars] at h
    split at h
    · exact ih h
    · cases dashes with
      | nil => rwa [List.flatMap_nil, List.nil_append, trimStart_of_not_blank hblank] at h
      | cons gap' dashes =>
        -- only spaces are skipped, and the next dash is in front of the body
        obtain ⟨t, ht⟩ :
            ∃ t, trimStart ((gap' :: dashes).flatMap dashChars ++ c :: cs) = '-' :: t :=
          ⟨_, trimStart_of_not_blank (by decide)⟩
        rw [ht] at h
        exact absurd (eq_of_head_starts hword h) (by decide)

/-- behind several dashes with one space between them, the spaces behind the last one are skipped -/
theorem entry_text (dashes : List Nat) (hdashes : dashes.dropLast.all (· == 0) = true) :
    entry (dashes.flatMap dashChars ++ c :: cs) = c :: cs := by
  induction dashes with
  | nil => exact entry_body hblank hbrace hcs
  | cons gap dashes ih =>
    rw [List.flatMap_cons, List.append_assoc, entry_dashChars]
    cases dashes with
    | nil =>
      split
      · exact entry_body hblank hbrace hcs
      · exact trimStart_of_not_blank hblank
    | cons gap' dashes =>
      simp only [List.dropLast_cons_cons, List.all_cons, Bool.and_eq_true, beq_iff_eq] at hdashes
      rw [if_pos hdashes.1]
      exact ih hdashes.2

end

end Netlab.LegacyKey
