import Mathlib.Data.List.Basic
import Mathlib.Logic.Function.Basic
import Netlab.Proofs.Diagnostics
import Netlab.Proofs.Distinct

/-!
# Collections of diagnostics as ordered sets

Several collections are fed with warnings, with units that were left out and with each other.  What
each then holds are the first occurrences of all that was ever sent to it, whatever the operations
were and in whatever order.

* `toList_pushAll`        what a list adds to a collection;
* `performAll_apply`      what a run of operations adds to each;
* `extend_extend`         merging is associative;
* `ordered_sets`          the property.
-/

namespace Netlab.Diagnostics

/-! ## what is held -/

theorem toList_pushAll (ds : Diagnostics) (l : List Diagnostic) :
    (ds.pushAll l).toList = ds.toList ++ (distinct l).filter (· ∉ ds.toList) := by
  induction l generalizing ds with
  | nil => simp [pushAll_nil, distinct_nil]
  | cons d l ih =>
    rw [pushAll_cons, ih, distinct_cons]
    by_cases h : d ∈ ds.toList
    · rw [push_of_mem ds d h, List.filter_cons_of_neg (by simpa using h), List.filter_filter]
      congr 1
      refine List.filter_congr fun x _ => ?_
      by_cases hx : x = d <;> simp [hx, h]
    · rw [push_toList ds d h, List.filter_cons_of_pos (by simpa using h), List.filter_filter,
        List.append_assoc, List.singleton_append]
      congr 2
      refine List.filter_congr fun x _ => ?_
      simp

theorem toList_pushAll_empty (l : List Diagnostic) :
    (({} : Diagnostics).pushAll l).toList = distinct l := by
  rw [toList_pushAll]
  simp

/-! ## merging -/

section
variable (a b : Diagnostics)

theorem pushAll_of_forall_mem (l : List Diagnostic) (h : ∀ d ∈ l, d ∈ a.toList) :
    a.pushAll l = a := by
  induction l with
  | nil => rfl
  | cons d l ih =>
    rw [List.forall_mem_cons] at h
    rw [pushAll_cons, push_of_mem a d h.1, ih h.2]

theorem extend_self : a.extend a = a := a.pushAll_of_forall_mem a.toList fun _ hd => hd

/-- a collection that was merged adds nothing, whatever was recorded since -/
theorem extend_pushAll_extend (l : List Diagnostic) :
    ((a.extend b).pushAll l).extend b = (a.extend b).pushAll l := by
  refine pushAll_of_forall_mem _ b.toList fun d hd => ?_
  exact (mem_pushAll (a.extend b) l d).mpr (Or.inl ((mem_extend a b d).mpr (Or.inr hd)))

theorem extend_extend (c : Diagnostics) : (a.extend b).extend c = a.extend (b.extend c) :=
  (extend_pushAll a b c.toList).symm

end

/-! ## warnings and units left out -/

section
variable (ds : Diagnostics)

theorem mem_warnings (d : Diagnostic) :
    d ∈ ds.warnings ↔ d ∈ ds.toList ∧ d.severity = .warning := by
  rw [warnings, List.mem_filter, decide_eq_true_iff]

theorem mem_skippedUnits (d : Diagnostic) :
    d ∈ ds.skippedUnits ↔ d ∈ ds.toList ∧ d.severity = .skipped := by
  rw [skippedUnits, List.mem_filter, decide_eq_true_iff]

/-- every entry, as often as it is held, is either a warning or a unit left out -/
theorem perm_warnings_append_skippedUnits :
    (ds.warnings ++ ds.skippedUnits).Perm ds.toList := by
  have hskipped : ds.skippedUnits = ds.toList.filter fun d => !decide (d.severity = .warning) := by
    refine List.filter_congr fun d _ => ?_
    cases d.severity <;> decide
  rw [hskipped]
  exact List.filter_append_perm _ ds.toList

end

/-! ## collections that feed each other -/

/-- an operation on collections that are told apart by `ι` -/
inductive Operation (ι : Type) where
  | warn (target : ι) (message : String)
  | skip (target : ι) (error : CompileError)
  /-- merge the collection `source` into another -/
  | extend (target source : ι)

section
variable {ι : Type} [DecidableEq ι]

namespace Operation

def target : Operation ι → ι
  | warn target _ | skip target _ | extend target _ => target

/-- what an operation sends to its target; a collection sends what it holds at that moment -/
def entries (s : ι → Diagnostics) : Operation ι → List Diagnostic
  | warn _ message => [.warning message]
  | skip _ error => [.skipped error]
  | extend _ source => (s source).toList

/-- the collections after an operation -/
def perform (s : ι → Diagnostics) : Operation ι → ι → Diagnostics
  | warn target message => Function.update s target ((s target).push (.warning message))
  | skip target error => Function.update s target ((s target).push (.skipped error))
  | extend target source => Function.update s target ((s target).extend (s source))

theorem perform_eq (s : ι → Diagnostics) (op : Operation ι) :
    op.perform s = Function.update s op.target ((s op.target).pushAll (op.entries s)) := by
  cases op <;> rfl

/-- an operation records what it sends in its target and leaves the others alone -/
theorem perform_apply (s : ι → Diagnostics) (op : Operation ι) (c : ι) :
    op.perform s c = (s c).pushAll (if op.target = c then op.entries s else []) := by
  rw [perform_eq]
  by_cases h : op.target = c
  · subst h
    rw [Function.update_self, if_pos rfl]
  · rw [Function.update_of_ne (Ne.symm h), if_neg h, pushAll_nil]

end Operation

/-- the collections after all operations, one after the other -/
def performAll (s : ι → Diagnostics) (ops : List (Operation ι)) : ι → Diagnostics :=
  ops.foldl Operation.perform s

/-- all that operations send to the collection `c`, in order -/
def sent (c : ι) : (ι → Diagnostics) → List (Operation ι) → List Diagnostic
  | _, [] => []
  | s, op :: ops => (if op.target = c then op.entries s else []) ++ sent c (op.perform s) ops

/-- a run of operations records all that it sends -/
theorem performAll_apply (s : ι → Diagnostics) (ops : List (Operation ι)) (c : ι) :
    performAll s ops c = (s c).pushAll (sent c s ops) := by
  induction ops generalizing s with
  | nil => rfl
  | cons op ops ih =>
    show performAll (op.perform s) ops c = _
    rw [ih, Operation.perform_apply, sent, pushAll_append]

/-- **Collections are ordered sets.**  After any operations on collections that were empty at first,
each holds every entry once, namely the first occurrences, in order, of all that was sent to it.
Merging a collection into itself, or again into one that it was merged into before, changes nothing;
merging two collections one after the other is merging the first with the second merged into it.
Warnings and units left out are told in the order of recording, and every entry is one or the
other. -/
theorem ordered_sets (ops : List (Operation ι)) :
    (∀ c, (performAll (fun _ => {}) ops c).toList.Nodup ∧
      (performAll (fun _ => {}) ops c).toList = firstOccurrences (sent c (fun _ => {}) ops)) ∧
    (∀ a : Diagnostics, a.extend a = a) ∧
    (∀ (a b : Diagnostics) l, ((a.extend b).pushAll l).extend b = (a.extend b).pushAll l) ∧
    (∀ a b c : Diagnostics, (a.extend b).extend c = a.extend (b.extend c)) ∧
    ∀ ds : Diagnostics, ds.warnings.Sublist ds.toList ∧ ds.skippedUnits.Sublist ds.toList ∧
      (ds.warnings ++ ds.skippedUnits).Perm ds.toList ∧
      (∀ d, d ∈ ds.warnings ↔ d ∈ ds.toList ∧ d.severity = .warning) ∧
      ∀ d, d ∈ ds.skippedUnits ↔ d ∈ ds.toList ∧ d.severity = .skipped := by
  refine ⟨fun c => ?_, extend_self, extend_pushAll_extend, extend_extend, fun ds => ?_⟩
  · have hheld : (performAll (fun _ => {}) ops c).toList = distinct (sent c (fun _ => {}) ops) := by
      rw [performAll_apply, toList_pushAll_empty]
    rw [hheld]
    exact ⟨nodup_distinct _, distinct_eq_firstOccurrences _⟩
  · exact ⟨List.filter_sublist, List.filter_sublist, ds.perm_warnings_append_skippedUnits,
      ds.mem_warnings, ds.mem_skippedUnits⟩

end

/-- two collections, told apart by a truth value, that are merged into each other in turn -/
example :
    (performAll (fun _ => {})
      [ .warn true "a", .extend false true, .skip false (.missingImage "R1"), .warn true "b",
        .extend true false, .extend false true ] true).toList.map (·.text)
      = ["a", "b", "skipped: Container node 'R1' has no image"] := by
  decide +kernel

end Netlab.Diagnostics
