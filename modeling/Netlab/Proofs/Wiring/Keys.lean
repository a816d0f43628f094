import Mathlib.Data.Prod.Lex
import Mathlib.Data.Sym.Sym2
import Netlab.Compile.Wiring
import Netlab.Proofs.Text.Bytes

/-!
# Keys of direct links

A direct link goes by a key: its two ends, in an order that does not depend on which of them
declares it.  They are compared by the names of their nodes and then of their interfaces.

* `Endpoint.precedes_iff`      ends are in the order of their names;
* `Endpoint.bytes_le_iff`      and so are their bytes;
* `Endpoint.pair_ordered`      the ends of a key are in order;
* `Endpoint.pair_comm`         the key is the same from both ends;
* `Endpoint.pair_eq_iff`       and no two links have one;
* `Endpoint.keys_tell_links`   all of it.
-/

namespace Netlab.Endpoint

/-! ## the order of ends -/

/-- the two names of an end, the node's in front -/
def names (a : Endpoint) : String ×ₗ String := toLex (a.node, a.interface)

theorem names_inj (a b : Endpoint) : a.names = b.names ↔ a = b := by
  rw [names, names, toLex_inj, Prod.mk.injEq]
  cases a
  cases b
  rw [mk.injEq]

theorem precedes_iff (a b : Endpoint) : a.precedes b = true ↔ a.names ≤ b.names := by
  rw [names, names, Prod.Lex.toLex_le_toLex]
  simp only [precedes, Bool.or_eq_true, Bool.and_eq_true, decide_eq_true_eq, beq_iff_eq]

theorem precedes_total (a b : Endpoint) : a.precedes b = true ∨ b.precedes a = true := by
  rw [precedes_iff, precedes_iff]
  exact le_total a.names b.names

theorem precedes_antisymm (a b : Endpoint) (hab : a.precedes b = true)
    (hba : b.precedes a = true) : a = b := by
  rw [precedes_iff] at hab hba
  exact (names_inj a b).mp (le_antisymm hab hba)

/-- the bytes of the two names -/
def bytes (a : Endpoint) : List UInt8 ×ₗ List UInt8 :=
  toLex (Text.utf8 a.node, Text.utf8 a.interface)

theorem bytes_le_iff (a b : Endpoint) : a.bytes ≤ b.bytes ↔ a.names ≤ b.names := by
  rw [bytes, bytes, names, names, Prod.Lex.toLex_le_toLex, Prod.Lex.toLex_le_toLex,
    Text.utf8_lt_iff, Text.utf8_inj, Text.utf8_le_iff]

/-! ## keys -/

theorem pair_cases (a b : Endpoint) : a.pair b = (a, b) ∨ a.pair b = (b, a) := by
  unfold pair
  split
  · exact Or.inl rfl
  · exact Or.inr rfl

/-- what holds of the two ends of a link holds of the ends of its key -/
theorem pair_forall (p : Endpoint → Prop) (a b : Endpoint) :
    p (a.pair b).1 ∧ p (a.pair b).2 ↔ p a ∧ p b := by
  obtain h | h := a.pair_cases b
  · rw [h]
  · rw [h]
    exact and_comm

theorem pair_ordered (a b : Endpoint) : (a.pair b).1.precedes (a.pair b).2 = true := by
  by_cases hab : a.precedes b = true
  · rw [pair, if_pos hab]
    exact hab
  · rw [pair, if_neg hab]
    exact (precedes_total a b).resolve_left hab

theorem pair_comm (a b : Endpoint) : a.pair b = b.pair a := by
  by_cases hab : a.precedes b = true
  · by_cases hba : b.precedes a = true
    · rw [precedes_antisymm a b hab hba]
    · rw [pair, pair, if_pos hab, if_neg hba]
  · have hba : b.precedes a = true := (precedes_total a b).resolve_left hab
    rw [pair, pair, if_neg hab, if_pos hba]

/-- the link that a key stands for -/
def joined (key : Endpoint × Endpoint) : Sym2 Endpoint := s(key.1, key.2)

theorem joined_pair (a b : Endpoint) : joined (a.pair b) = s(a, b) := by
  obtain h | h := a.pair_cases b
  · rw [h]
    rfl
  · rw [h]
    exact Sym2.eq_swap

/-- a key tells a link exactly -/
theorem pair_eq_iff (a b c d : Endpoint) : a.pair b = c.pair d ↔ s(a, b) = s(c, d) := by
  constructor
  · intro h
    rw [← joined_pair a b, h, joined_pair c d]
  · intro h
    obtain ⟨rfl, rfl⟩ | ⟨rfl, rfl⟩ := Sym2.eq_iff.mp h
    · rfl
    · exact pair_comm a b

/-- **A key tells a link.**  Whatever names the ends share, two links have one key exactly if they
have the same two ends, so it does not matter from which end a link is declared.  The key holds
these two ends, and the first of them is not behind the second in the order of bytes. -/
theorem keys_tell_links (a b c d : Endpoint) :
    (a.pair b = c.pair d ↔ s(a, b) = s(c, d)) ∧ a.pair b = b.pair a ∧
      s((a.pair b).1, (a.pair b).2) = s(a, b) ∧ (a.pair b).1.bytes ≤ (a.pair b).2.bytes := by
  refine ⟨pair_eq_iff a b c d, pair_comm a b, joined_pair a b, ?_⟩
  rw [bytes_le_iff, ← precedes_iff]
  exact pair_ordered a b

-- in UTF-16 these two would be the other way round
example : pair ⟨"😀", "net0"⟩ ⟨"\uff61", "net0"⟩ = (⟨"\uff61", "net0"⟩, ⟨"😀", "net0"⟩) := by
  decide

end Netlab.Endpoint
