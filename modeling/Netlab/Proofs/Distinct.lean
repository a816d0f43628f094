import Mathlib.Data.List.Basic
import Mathlib.Data.List.Induction
import Mathlib.Data.List.Nodup
import Netlab.Node.Lifecycle

/-!
# Laws of first occurrences

`firstOccurrences` says by places what `distinct` says by recursion: it keeps an item if none of the
items in front of it is the same.

* `distinct_append`                what a second list adds to a first one;
* `distinct_eq_firstOccurrences`   the two agree;
* `distinct_distinct`              nothing is left to drop;
* `pairwise_distinct_filterMap`    values that are read off a list are kept in the order in which
                                   the list comes to them.
-/

namespace Netlab

section
variable {α : Type} [DecidableEq α]

theorem distinct_nil : distinct ([] : List α) = [] := rfl

theorem distinct_cons (x : α) (xs : List α) :
    distinct (x :: xs) = x :: (distinct xs).filter (fun y => decide (y ≠ x)) := rfl

theorem mem_distinct (x : α) (xs : List α) : x ∈ distinct xs ↔ x ∈ xs := by
  induction xs with
  | nil => exact Iff.rfl
  | cons y ys ih =>
    rw [distinct_cons, List.mem_cons, List.mem_cons, List.mem_filter, ih]
    by_cases h : x = y <;> simp [h]

theorem nodup_distinct (xs : List α) : (distinct xs).Nodup := by
  induction xs with
  | nil => exact List.nodup_nil
  | cons x xs ih =>
    rw [distinct_cons, List.nodup_cons]
    exact ⟨fun h => by simp at h, ih.filter _⟩

theorem distinct_of_nodup (xs : List α) (h : xs.Nodup) : distinct xs = xs := by
  induction xs with
  | nil => rfl
  | cons x xs ih =>
    rw [List.nodup_cons] at h
    rw [distinct_cons, ih h.2, List.filter_eq_self.mpr]
    intro y hy
    exact decide_eq_true fun hyx => h.1 (hyx ▸ hy)

theorem distinct_distinct (xs : List α) : distinct (distinct xs) = distinct xs :=
  distinct_of_nodup _ (nodup_distinct xs)

theorem distinct_append (xs ys : List α) :
    distinct (xs ++ ys) = distinct xs ++ (distinct ys).filter (· ∉ xs) := by
  induction xs with
  | nil => simp [distinct_nil]
  | cons x xs ih =>
    rw [List.cons_append, distinct_cons, distinct_cons, ih, List.filter_append, List.filter_filter,
      List.cons_append]
    congr 2
    refine List.filter_congr fun y _ => ?_
    simp

/-! ## by places -/

/-- the items of a list that are not among those in front of them -/
def firstOccurrences (xs : List α) : List α :=
  (xs.zipIdx.filter fun (x, k) => x ∉ xs.take k).map (·.1)

/-- one more item at the end -/
theorem firstOccurrences_append_singleton (xs : List α) (x : α) :
    firstOccurrences (xs ++ [x]) = firstOccurrences xs ++ [x].filter (· ∉ xs) := by
  have hfront : (xs.zipIdx.filter fun (y, k) => y ∉ (xs ++ [x]).take k)
      = xs.zipIdx.filter fun (y, k) => y ∉ xs.take k := by
    refine List.filter_congr fun (y, k) hy => ?_
    have hk : k < xs.length := by simpa using (List.mem_zipIdx hy).2.1
    show decide (y ∉ (xs ++ [x]).take k) = decide (y ∉ xs.take k)
    rw [List.take_append_of_le_length (Nat.le_of_lt hk)]
  rw [firstOccurrences, List.zipIdx_append, List.filter_append, List.map_append, hfront]
  congr 1
  by_cases h : x ∈ xs <;> simp [h]

theorem distinct_eq_firstOccurrences (xs : List α) : distinct xs = firstOccurrences xs := by
  induction xs using List.reverseRecOn with
  | nil => rfl
  | append_singleton xs x ih =>
    rw [distinct_append, firstOccurrences_append_singleton, ih]
    rfl

end

/-! ## the order of what a list declares -/

/-- the values that a list declares come in the order of the first item that declares each -/
theorem pairwise_distinct_filterMap {α β : Type} [DecidableEq α] (f : β → Option α) (l : List β) :
    (distinct (l.filterMap f)).Pairwise fun x y =>
      l.findIdx (f · = some x) < l.findIdx (f · = some y) := by
  induction l with
  | nil => exact List.Pairwise.nil
  | cons b l ih =>
    cases hb : f b with
    | none =>
      rw [List.filterMap_cons_none hb]
      refine ih.imp fun {x y} hxy => ?_
      simpa [List.findIdx_cons, hb] using hxy
    | some z =>
      -- `z` comes first, and all others at one place more than in the rest
      have hlater (y : α) (hy : y ≠ z) :
          (b :: l).findIdx (f · = some y) = l.findIdx (f · = some y) + 1 := by
        simp [List.findIdx_cons, hb, Ne.symm hy]
      have hne (y : α) (hy : y ∈ (distinct (l.filterMap f)).filter fun y => decide (y ≠ z)) :
          y ≠ z := of_decide_eq_true (List.mem_filter.mp hy).2
      rw [List.filterMap_cons_some hb, distinct_cons, List.pairwise_cons]
      constructor
      · intro y hy
        rw [hlater y (hne y hy)]
        simp [List.findIdx_cons, hb]
      · refine (ih.filter _).imp_of_mem fun {x y} hx hy hxy => ?_
        rw [hlater x (hne x hx), hlater y (hne y hy)]
        exact Nat.succ_lt_succ hxy

end Netlab
