import Mathlib.Data.List.Basic
import Netlab.Diagnostics

/-!
# What a collection of diagnostics holds

A collection started empty and fed a list holds the first occurrences of that list, in order.

* `mem_pushAll`        nothing is lost and nothing is made up;
* `filter_pushAll`     selecting entries and recording them may change places;
* `pushAll_head`       the first entry fed is the first entry held;
* `extend_pushAll`     recording in a collection of its own and merging later makes no difference.
-/

namespace Netlab.Diagnostics

/-! ## contents -/

theorem mem_pushAll (ds : Diagnostics) (l : List Diagnostic) (x : Diagnostic) :
    x ∈ (ds.pushAll l).toList ↔ x ∈ ds.toList ∨ x ∈ l := by
  induction l generalizing ds with
  | nil => simp [pushAll_nil]
  | cons d l ih => rw [pushAll_cons, ih, mem_push, List.mem_cons, or_assoc]

theorem toList_prefix_push (ds : Diagnostics) (d : Diagnostic) :
    ds.toList <+: (ds.push d).toList := by
  unfold push
  split
  · exact List.prefix_rfl
  · exact List.prefix_append _ _

theorem toList_prefix_pushAll (ds : Diagnostics) (l : List Diagnostic) :
    ds.toList <+: (ds.pushAll l).toList := by
  induction l generalizing ds with
  | nil => exact List.prefix_rfl
  | cons d l ih =>
    rw [pushAll_cons]
    exact (toList_prefix_push ds d).trans (ih (ds.push d))

theorem pushAll_head (l : List Diagnostic) :
    (({} : Diagnostics).pushAll l).toList.head? = l.head? := by
  cases l with
  | nil => rfl
  | cons d l =>
    obtain ⟨rest, h⟩ := toList_prefix_pushAll (({} : Diagnostics).push d) l
    rw [pushAll_cons, ← h]
    rfl

/-! ## selection -/

theorem filter_push (p : Diagnostic → Bool) (ds : Diagnostics) (d : Diagnostic) :
    (ds.push d).toList.filter p
      = (({ toList := ds.toList.filter p } : Diagnostics).pushAll ([d].filter p)).toList := by
  by_cases hp : p d = true
  · rw [List.filter_cons_of_pos hp, List.filter_nil, pushAll_cons, pushAll_nil]
    by_cases h : d ∈ ds.toList
    · rw [push_of_mem ds d h, push_of_mem _ d (List.mem_filter.mpr ⟨h, hp⟩)]
    · have h' : d ∉ ds.toList.filter p := fun hf => h (List.mem_filter.mp hf).1
      rw [push_toList ds d h, push_toList _ d h', List.filter_append, List.filter_cons_of_pos hp,
        List.filter_nil]
  · rw [List.filter_cons_of_neg hp, List.filter_nil, pushAll_nil]
    by_cases h : d ∈ ds.toList
    · rw [push_of_mem ds d h]
    · rw [push_toList ds d h, List.filter_append, List.filter_cons_of_neg hp, List.filter_nil,
        List.append_nil]

theorem filter_pushAll (p : Diagnostic → Bool) (ds : Diagnostics) (l : List Diagnostic) :
    (ds.pushAll l).toList.filter p
      = (({ toList := ds.toList.filter p } : Diagnostics).pushAll (l.filter p)).toList := by
  induction l generalizing ds with
  | nil => rfl
  | cons d l ih =>
    have hd : (d :: l).filter p = [d].filter p ++ l.filter p := by
      rw [← List.filter_append, List.singleton_append]
    rw [pushAll_cons, ih, hd, pushAll_append, filter_push]

theorem warnings_pushAll (l : List Diagnostic) :
    (({} : Diagnostics).pushAll l).warnings
      = (({} : Diagnostics).pushAll (l.filter (·.severity = .warning))).toList :=
  filter_pushAll _ {} l

theorem skippedUnits_pushAll (l : List Diagnostic) :
    (({} : Diagnostics).pushAll l).skippedUnits
      = (({} : Diagnostics).pushAll (l.filter (·.severity = .skipped))).toList :=
  filter_pushAll _ {} l

theorem skippedUnits_eq_nil_iff (ds : Diagnostics) :
    ds.skippedUnits = [] ↔ ∀ d ∈ ds.toList, d.severity ≠ .skipped := by
  simp [skippedUnits, List.filter_eq_nil_iff]

/-! ## merging -/

theorem extend_empty (ds : Diagnostics) : ds.extend {} = ds := rfl

theorem mem_extend (ds other : Diagnostics) (x : Diagnostic) :
    x ∈ (ds.extend other).toList ↔ x ∈ ds.toList ∨ x ∈ other.toList :=
  mem_pushAll ds other.toList x

theorem extend_push (ds other : Diagnostics) (d : Diagnostic) :
    ds.extend (other.push d) = (ds.extend other).push d := by
  by_cases h : d ∈ other.toList
  · -- the entry comes along with those of `other`
    have hd : d ∈ (ds.extend other).toList := (mem_extend ds other d).mpr (Or.inr h)
    rw [push_of_mem other d h, push_of_mem _ d hd]
  · rw [extend, push_toList other d h, pushAll_append]
    rfl

theorem extend_pushAll (ds other : Diagnostics) (l : List Diagnostic) :
    ds.extend (other.pushAll l) = (ds.extend other).pushAll l := by
  induction l generalizing other with
  | nil => rfl
  | cons d l ih => rw [pushAll_cons, ih, extend_push, pushAll_cons]

theorem skippedUnits_extend_eq_nil (ds other : Diagnostics) :
    (ds.extend other).skippedUnits = [] ↔ ds.skippedUnits = [] ∧ other.skippedUnits = [] := by
  simp only [skippedUnits_eq_nil_iff, mem_extend]
  constructor
  · intro h
    exact ⟨fun d hd => h d (Or.inl hd), fun d hd => h d (Or.inr hd)⟩
  · rintro ⟨hds, hother⟩ d (hd | hd)
    · exact hds d hd
    · exact hother d hd

end Netlab.Diagnostics
