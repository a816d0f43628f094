import Mathlib.Data.String.Basic

/-!
# The order of texts is that of their bytes

Texts are compared character by character.  Comparing the bytes of their encoding in UTF-8 gives the
same order: of two characters the smaller one has the smaller bytes.

* `Text.utf8EncodeChar_append_lt`   a smaller character has smaller bytes, whatever follows;
* `Text.utf8_lt_iff`, `Text.utf8_le_iff`   texts and their bytes are in one order;
* `Text.utf8_inj`                   different texts have different bytes.
-/

namespace Netlab.Text

/-- the bytes of a text in UTF-8 -/
def utf8 (s : String) : List UInt8 := s.toUTF8.data.toList

theorem utf8_eq (s : String) : utf8 s = s.toList.flatMap String.utf8EncodeChar := by
  rw [utf8, String.toUTF8_eq_toByteArray, ← String.ofList_toList (s := s),
    String.toByteArray_ofList, List.utf8Encode, List.toList_data_toByteArray, String.toList_ofList]

theorem utf8_inj (s t : String) : utf8 s = utf8 t ↔ s = t := by
  rw [utf8, utf8, Array.toList_inj, ← ByteArray.ext_iff, String.toUTF8_eq_toByteArray,
    String.toUTF8_eq_toByteArray, String.toByteArray_inj]

/-! ## one character -/

theorem toNat_lt (c : Char) : c.toNat < 0x110000 := by
  have h := c.valid
  rw [UInt32.isValidChar, Nat.isValidChar] at h
  rw [Char.toNat]
  omega

theorem cons_ofNat_lt_iff (m n : Nat) (hm : m < 256) (hn : n < 256) (xs ys : List UInt8) :
    UInt8.ofNat m :: xs < UInt8.ofNat n :: ys ↔ m < n ∨ m = n ∧ xs < ys := by
  rw [List.cons_lt_cons_iff, UInt8.lt_iff_toNat_lt, ← UInt8.toNat_inj,
    UInt8.toNat_ofNat_of_lt' hm, UInt8.toNat_ofNat_of_lt' hn]

/-- the bytes of a character are smaller than those of a greater one, whatever follows -/
theorem utf8EncodeChar_append_lt (c d : Char) (h : c < d) (xs ys : List UInt8) :
    String.utf8EncodeChar c ++ xs < String.utf8EncodeChar d ++ ys := by
  have hlt : c.toNat < d.toNat := h
  have hmax := toNat_lt d
  -- more digits to the base 64 are dropped one after the other, so that `omega` can relate them
  have hsecond (n : Nat) : n / 4096 = n / 64 / 64 := (Nat.div_div_eq_div_mul n 64 64).symm
  have hthird (n : Nat) : n / 262144 = n / 64 / 64 / 64 := by
    rw [Nat.div_div_eq_div_mul, Nat.div_div_eq_div_mul]
  rw [String.utf8EncodeChar, String.utf8EncodeChar, ← Char.toNat, ← Char.toNat]
  generalize c.toNat = m at hlt
  generalize d.toNat = n at hlt hmax
  -- encodings of different lengths differ in the first byte, those of one length in the first digit
  -- in which the numbers do
  split_ifs
  all_goals
    simp (disch := omega) only [List.cons_append, List.nil_append, cons_ofNat_lt_iff, hsecond,
      hthird]
    omega

/-! ## texts -/

theorem flatMap_utf8EncodeChar_lt (cs ds : List Char) (h : List.Lex (· < ·) cs ds) :
    cs.flatMap String.utf8EncodeChar < ds.flatMap String.utf8EncodeChar := by
  induction h with
  | @nil d ds =>
    obtain ⟨x, xs, hd⟩ := List.exists_cons_of_ne_nil (@String.utf8EncodeChar_ne_nil d)
    rw [List.flatMap_nil, List.flatMap_cons, hd, List.cons_append]
    exact List.nil_lt_cons x _
  | rel h => exact utf8EncodeChar_append_lt _ _ h _ _
  | cons _ ih => exact List.append_left_lt ih

theorem utf8_lt_of_lt (s t : String) (h : s < t) : utf8 s < utf8 t := by
  rw [utf8_eq, utf8_eq]
  exact flatMap_utf8EncodeChar_lt _ _ (List.lex_lt.mpr (String.lt_iff_toList_lt.mp h))

theorem utf8_lt_iff (s t : String) : utf8 s < utf8 t ↔ s < t := by
  refine ⟨fun h => ?_, utf8_lt_of_lt s t⟩
  obtain hst | rfl | hts := lt_trichotomy s t
  · exact hst
  · exact absurd h (List.lt_irrefl _)
  · exact absurd h (List.lt_asymm (utf8_lt_of_lt t s hts))

theorem utf8_le_iff (s t : String) : utf8 s ≤ utf8 t ↔ s ≤ t := by
  rw [← List.not_lt, ← String.not_lt, utf8_lt_iff]

end Netlab.Text
