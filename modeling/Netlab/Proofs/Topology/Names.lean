import Mathlib.Data.List.Basic
import Netlab.Node.Lifecycle
import Netlab.Topology.Validation

/-!
# Names in a well-formed topology

* `checkNames_eq_ok_iff`    names pass exactly if none is empty and none stands twice;
* `Topology.node?_of_mem`   so a node of a well-formed topology is found under its own name;
* `Topology.switch?_of_mem` and a switch too;
* `Topology.Usable`         a name that a direct link may lead to.
-/

namespace Netlab

theorem bind_eq_ok {ε α β : Type} (x : Except ε α) (f : α → Except ε β) (b : β) :
    (x >>= f) = .ok b ↔ ∃ a, x = .ok a ∧ f a = .ok b := by
  cases x with
  | error e => exact ⟨fun h => (nomatch h), fun ⟨_, h, _⟩ => (nomatch h)⟩
  | ok a => exact ⟨fun h => ⟨a, rfl, h⟩, fun ⟨_, h, hf⟩ => Except.ok.inj h ▸ hf⟩

/-! ## unique names -/

theorem checkNamesFrom_eq_ok_iff (named : Named) (seen names : List String) :
    checkNamesFrom named seen names = .ok ()
      ↔ "" ∉ names ∧ names.Nodup ∧ ∀ x ∈ names, x ∉ seen := by
  induction names generalizing seen with
  | nil => simp [checkNamesFrom]
  | cons name names ih =>
    rw [checkNamesFrom]
    by_cases he : name = ""
    · simp [he]
    · by_cases hs : name ∈ seen
      · simp [he, hs]
      · rw [if_neg he, if_neg hs, ih]
        simp only [List.mem_cons, not_or, List.nodup_cons, forall_eq_or_imp]
        constructor
        · intro ⟨h1, h2, h3⟩
          refine ⟨⟨fun e => he e.symm, h1⟩, ⟨?_, h2⟩, hs, fun x hx => (h3 x hx).2⟩
          exact fun hm => (h3 name hm).1 rfl
        · intro ⟨⟨_, h1⟩, ⟨h2, h3⟩, _, h4⟩
          exact ⟨h1, h3, fun x hx => ⟨fun e => h2 (e ▸ hx), h4 x hx⟩⟩

theorem checkNames_eq_ok_iff (named : Named) (names : List String) :
    checkNames named names = .ok () ↔ "" ∉ names ∧ names.Nodup := by
  rw [checkNames, checkNamesFrom_eq_ok_iff]
  simp

/-- where no name stands twice, what carries a name is found under it -/
theorem find?_name_of_mem {α : Type} (name : α → String) (l : List α) (hnodup : (l.map name).Nodup)
    (x : α) (hx : x ∈ l) : l.find? (fun y => name y == name x) = some x := by
  obtain ⟨before, after, rfl⟩ := List.append_of_mem hx
  rw [List.map_append, List.nodup_append] at hnodup
  rw [List.find?_eq_some_iff_append]
  refine ⟨beq_self_eq_true (name x), before, after, rfl, fun y hy => ?_⟩
  have hne := hnodup.2.2 (name y) (List.mem_map_of_mem hy) (name x) (by simp)
  simpa using hne

namespace Topology

theorem names_of_validate (t : Topology) (h : t.validate = .ok ()) :
    checkNames .node (t.nodes.map (·.name)) = .ok ()
      ∧ checkNames .switch (t.switches.map (·.name)) = .ok () := by
  rw [validate, bind_eq_ok] at h
  obtain ⟨_, hn, h⟩ := h
  rw [bind_eq_ok] at h
  obtain ⟨_, hs, _⟩ := h
  exact ⟨hn, hs⟩

theorem nodup_node_names (t : Topology) (h : t.validate = .ok ()) :
    (t.nodes.map (·.name)).Nodup :=
  ((checkNames_eq_ok_iff _ _).mp (t.names_of_validate h).1).2

theorem nodup_switch_names (t : Topology) (h : t.validate = .ok ()) :
    (t.switches.map (·.name)).Nodup :=
  ((checkNames_eq_ok_iff _ _).mp (t.names_of_validate h).2).2

/-- a node of a well-formed topology is the one found under its name -/
theorem node?_of_mem (t : Topology) (h : t.validate = .ok ()) (n : Node) (hn : n ∈ t.nodes) :
    t.node? n.name = some n :=
  find?_name_of_mem Node.name t.nodes (t.nodup_node_names h) n hn

theorem switch?_of_mem (t : Topology) (h : t.validate = .ok ()) (s : Switch) (hs : s ∈ t.switches) :
    t.switch? s.name = some s :=
  find?_name_of_mem Switch.name t.switches (t.nodup_switch_names h) s hs

/-! ## names that a link may lead to -/

/-- A direct link may lead to a name if the node of that name, if there is one, can be created. -/
def Usable (t : Topology) (name : String) : Prop :=
  ∀ n, t.node? name = some n → ∃ kind, n.creatable = .ok kind

theorem usable_of_creatable (t : Topology) (h : t.validate = .ok ()) (n : Node) (hn : n ∈ t.nodes)
    (kind : NodeKind) (hk : n.creatable = .ok kind) : t.Usable n.name := by
  intro m hm
  rw [t.node?_of_mem h n hn] at hm
  obtain rfl := Option.some.inj hm
  exact ⟨kind, hk⟩

theorem not_usable_of_not_creatable (t : Topology) (h : t.validate = .ok ()) (n : Node)
    (hn : n ∈ t.nodes) (e : CompileError) (he : n.creatable = .error e) : ¬ t.Usable n.name := by
  intro hu
  obtain ⟨kind, hk⟩ := hu n (t.node?_of_mem h n hn)
  rw [he] at hk
  cases hk

end Topology

end Netlab
