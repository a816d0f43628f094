/-!
# Reading piece by piece

A reader takes the characters of a text one after the other, and each of them may be refused; a host
takes commands in the same way.  A list is read item by item.

* `feed_cons_of_eq_some`     one input in front;
* `feed_append_of_eq_some`   some inputs behind others;
* `feed_eq_self`             inputs that change nothing;
* `mapM_map_eq_self`         a list whose items are each read back.
-/

namespace Netlab

/-! ## inputs -/

section
variable {σ ι : Type} {step : σ → ι → Option σ} {s s' : σ}

/-- the state behind the inputs; there is none once a step fails -/
def feed (step : σ → ι → Option σ) (s : σ) (xs : List ι) : Option σ := xs.foldlM step s

theorem feed_nil : feed step s [] = some s := rfl

theorem feed_cons (x : ι) (xs : List ι) :
    feed step s (x :: xs) = (step s x).bind fun s' => feed step s' xs := rfl

theorem feed_cons_of_eq_some {x : ι} (xs : List ι) (h : step s x = some s') :
    feed step s (x :: xs) = feed step s' xs := by
  rw [feed_cons, h, Option.bind_some]

theorem exists_of_feed_cons {x : ι} {xs : List ι} (h : feed step s (x :: xs) = some s') :
    ∃ m, step s x = some m ∧ feed step m xs = some s' :=
  Option.bind_eq_some_iff.mp h

theorem feed_append_of_eq_some {a : List ι} (b : List ι) (h : feed step s a = some s') :
    feed step s (a ++ b) = feed step s' b := by
  rw [feed, List.foldlM_append]
  show (feed step s a).bind (fun m => feed step m b) = _
  rw [h, Option.bind_some]

/-- inputs that leave the state as it is -/
theorem feed_eq_self (xs : List ι) (h : ∀ x ∈ xs, step s x = some s) :
    feed step s xs = some s := by
  induction xs with
  | nil => rfl
  | cons x xs ih =>
    rw [List.forall_mem_cons] at h
    rw [feed_cons_of_eq_some xs h.1, ih h.2]

end

/-! ## items -/

theorem mapM_map_eq_self {m : Type → Type} [Monad m] [LawfulMonad m] {α β : Type} (f : α → β)
    (g : β → m α) (h : ∀ x, g (f x) = pure x) (l : List α) : (l.map f).mapM g = pure l := by
  have hitem : g ∘ f = pure := funext h
  rw [List.mapM_map, hitem, List.mapM_pure, List.map_id']

end Netlab
