import Mathlib.Data.List.Forall2
import Netlab.Proofs.Pruning

/-!
# Declarations in another order

`Topology.Reordered` holds of two topologies that declare the same, the second with its nodes in
another order and with the interfaces of each node in another order.

* `Topology.validate_eq_ok_iff`       what a well-formed topology is, without an order;
* `Topology.usable_iff`               a name that a link may lead to, likewise;
* `Topology.Reordered.validate`, `Topology.Reordered.usable`   so neither is changed.
-/

namespace Netlab

/-! ## what does not depend on an order -/

theorem checkAddress_eq_ok_iff (node interface addr : String) :
    checkAddress node interface addr = .ok () ↔ isHardwareAddress addr = true := by
  rw [checkAddress]
  split
  · next h => exact ⟨fun _ => h, fun _ => rfl⟩
  · next h => exact ⟨fun hc => (nomatch hc), fun ha => absurd ha h⟩

theorem forM_eq_ok_iff {ε α : Type} (f : α → Except ε Unit) (l : List α) :
    l.forM f = .ok () ↔ ∀ x ∈ l, f x = .ok () := by
  induction l with
  | nil => exact ⟨fun _ _ hx => absurd hx List.not_mem_nil, fun _ => rfl⟩
  | cons x l ih =>
    rw [List.forall_mem_cons, ← ih]
    show (f x >>= fun _ => l.forM f) = .ok () ↔ _
    rw [bind_eq_ok]
    exact ⟨fun ⟨_, hx, hl⟩ => ⟨hx, hl⟩, fun ⟨hx, hl⟩ => ⟨(), hx, hl⟩⟩

namespace Topology

/-- a topology is well formed if its names are, and every address of an interface is one -/
theorem validate_eq_ok_iff (t : Topology) :
    t.validate = .ok () ↔
      checkNames .node (t.nodes.map (·.name)) = .ok ()
        ∧ checkNames .switch (t.switches.map (·.name)) = .ok ()
        ∧ ∀ n ∈ t.nodes, ∀ i ∈ n.interfaces, ∀ addr, i.addr = some addr →
            isHardwareAddress addr = true := by
  have haddresses : (t.addresses.forM fun a => checkAddress a.1 a.2.1 a.2.2) = .ok () ↔
        ∀ n ∈ t.nodes, ∀ i ∈ n.interfaces, ∀ addr, i.addr = some addr →
          isHardwareAddress addr = true := by
    rw [forM_eq_ok_iff]
    simp only [checkAddress_eq_ok_iff, addresses, List.mem_flatMap, List.mem_filterMap,
      Option.map_eq_some_iff]
    constructor
    · intro h n hn i hi addr haddr
      exact h (n.name, i.name, addr) ⟨n, hn, i, hi, addr, haddr, rfl⟩
    · rintro h _ ⟨n, hn, i, hi, addr, haddr, rfl⟩
      exact h n hn i hi addr haddr
  rw [validate, bind_eq_ok, ← haddresses]
  constructor
  · rintro ⟨_, hn, h⟩
    obtain ⟨_, hs, ha⟩ := (bind_eq_ok _ _ _).mp h
    exact ⟨hn, hs, ha⟩
  · rintro ⟨hn, hs, ha⟩
    exact ⟨(), hn, (bind_eq_ok _ _ _).mpr ⟨(), hs, ha⟩⟩

/-- in a well-formed topology it does not matter which node of a name comes first -/
theorem usable_iff (t : Topology) (h : t.validate = .ok ()) (name : String) :
    t.Usable name ↔ ∀ n ∈ t.nodes, n.name = name → ∃ kind, n.creatable = .ok kind := by
  constructor
  · rintro hu n hn rfl
    exact hu n (t.node?_of_mem h n hn)
  · intro hall n hfind
    exact hall n (t.node?_mem name n hfind) (t.node?_name name n hfind)

end Topology

/-! ## another order -/

/-- the same node with its interfaces in another order -/
def Node.Reordered (n n' : Node) : Prop :=
  ∃ is, is.Perm n.interfaces ∧ n' = n.withInterfaces is

namespace Node.Reordered
variable {n n' : Node}

theorem name (h : n.Reordered n') : n'.name = n.name := by
  obtain ⟨is, _, rfl⟩ := h
  rfl

theorem creatable (h : n.Reordered n') : n'.creatable = n.creatable := by
  obtain ⟨is, _, rfl⟩ := h
  exact n.creatable_withInterfaces is

theorem mem_interfaces (h : n.Reordered n') (i : Interface) :
    i ∈ n'.interfaces ↔ i ∈ n.interfaces := by
  obtain ⟨is, hperm, rfl⟩ := h
  exact hperm.mem_iff

theorem names {ns ns' : List Node} (h : List.Forall₂ Node.Reordered ns ns') :
    ns'.map (·.name) = ns.map (·.name) := by
  induction h with
  | nil => rfl
  | cons hn _ ih => rw [List.map_cons, List.map_cons, ih, hn.name]

end Node.Reordered

theorem exists_of_forall₂ {α β : Type} {R : α → β → Prop} {l : List α} {l' : List β}
    (hall : List.Forall₂ R l l') (x : α) (hx : x ∈ l) : ∃ y ∈ l', R x y := by
  induction hall with
  | nil => exact absurd hx List.not_mem_nil
  | @cons a b as bs hab _ ih =>
    obtain rfl | hx := List.mem_cons.mp hx
    · exact ⟨b, List.mem_cons_self .., hab⟩
    · obtain ⟨y, hy, hxy⟩ := ih hx
      exact ⟨y, List.mem_cons_of_mem _ hy, hxy⟩

namespace Topology

/-- the same topology with its nodes, and the interfaces of each node, in another order -/
structure Reordered (t t' : Topology) : Prop where
  nodes : ∃ ns, ns.Perm t.nodes ∧ List.Forall₂ Node.Reordered ns t'.nodes
  rest : t' = { t with nodes := t'.nodes }

namespace Reordered
variable {t t' : Topology}

theorem names_perm (h : t.Reordered t') :
    (t'.nodes.map (·.name)).Perm (t.nodes.map (·.name)) := by
  obtain ⟨ns, hperm, hall⟩ := h.nodes
  rw [Node.Reordered.names hall]
  exact hperm.map _

/-- every node is there in the other order -/
theorem exists_of_mem (h : t.Reordered t') (n : Node) (hn : n ∈ t.nodes) :
    ∃ n' ∈ t'.nodes, n.Reordered n' := by
  obtain ⟨ns, hperm, hall⟩ := h.nodes
  exact exists_of_forall₂ hall n (hperm.mem_iff.mpr hn)

theorem exists_of_mem_reordered (h : t.Reordered t') (n' : Node) (hn' : n' ∈ t'.nodes) :
    ∃ n ∈ t.nodes, n.Reordered n' := by
  obtain ⟨ns, hperm, hall⟩ := h.nodes
  obtain ⟨n, hn, hr⟩ := exists_of_forall₂ hall.flip n' hn'
  exact ⟨n, hperm.mem_iff.mp hn, hr⟩

theorem validate (h : t.Reordered t') (hvalid : t.validate = .ok ()) : t'.validate = .ok () := by
  rw [validate_eq_ok_iff, checkNames_eq_ok_iff] at hvalid ⊢
  obtain ⟨⟨hempty, hnodup⟩, hswitch, haddr⟩ := hvalid
  refine ⟨⟨?_, h.names_perm.nodup_iff.mpr hnodup⟩, ?_, ?_⟩
  · rw [h.names_perm.mem_iff]
    exact hempty
  · rw [h.rest]
    exact hswitch
  · intro n' hn' i hi
    obtain ⟨n, hn, hr⟩ := h.exists_of_mem_reordered n' hn'
    exact haddr n hn i ((hr.mem_interfaces i).mp hi)

theorem usable (h : t.Reordered t') (hvalid : t.validate = .ok ()) (name : String) :
    t'.Usable name ↔ t.Usable name := by
  rw [usable_iff t' (h.validate hvalid), usable_iff t hvalid]
  constructor
  · intro hall n hn hname
    obtain ⟨n', hn', hr⟩ := h.exists_of_mem n hn
    rw [← hr.creatable]
    exact hall n' hn' (hr.name.trans hname)
  · intro hall n' hn' hname
    obtain ⟨n, hn, hr⟩ := h.exists_of_mem_reordered n' hn'
    rw [hr.creatable]
    exact hall n hn (hr.name.symm.trans hname)

end Reordered

end Topology

end Netlab
