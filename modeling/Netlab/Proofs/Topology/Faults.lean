import Mathlib.Data.List.Induction
import Mathlib.Data.List.Nodup
import Mathlib.Tactic.IntervalCases
import Netlab.Proofs.Topology.Reordered

/-!
# What makes a topology well-formed

`Topology.validate` reads names with the set of those before, and addresses character by character.
Here it is said what it looks for: names that are set and each different, and addresses of six
octets with colons between them.

* `unambiguous_or_fault`         a list of names is in order or has a first fault;
* `isHardwareAddress_iff`        an address is six octets;
* `Topology.wellFormed_or_fault` a topology is in order or has a first fault;
* `Topology.validate_faults`     the property.
-/

namespace Netlab

/-! ## names -/

/-- no name is missing, and none stands twice -/
def Unambiguous (names : List String) : Prop := "" ∉ names ∧ names.Nodup

/-- what is wrong with a name, `before` being the names in front of it -/
inductive NameFault (named : Named) (before : List String) : String → ValidationError → Prop
  | empty : NameFault named before "" (.emptyName named)
  | repeated (name : String) (hset : name ≠ "") (hbefore : name ∈ before) :
    NameFault named before name (.duplicateName named name)

/-- `e` is what is wrong with a name, and those in front of it are in order -/
def FirstNameFault (named : Named) (names : List String) (e : ValidationError) : Prop :=
  ∃ before name after, names = before ++ name :: after ∧ Unambiguous before ∧
    NameFault named before name e

theorem Unambiguous.append_singleton {before : List String} (h : Unambiguous before) (name : String)
    (hset : name ≠ "") (hnew : name ∉ before) : Unambiguous (before ++ [name]) := by
  obtain ⟨hempty, hnodup⟩ := h
  constructor
  · intro hmem
    rcases List.mem_append.mp hmem with hmem | hmem
    · exact hempty hmem
    · exact hset (List.mem_singleton.mp hmem).symm
  · exact hnodup.append (List.nodup_singleton name) (List.disjoint_singleton.mpr hnew)

theorem unambiguous_or_fault (named : Named) (names : List String) :
    Unambiguous names ∨ ∃ e, FirstNameFault named names e := by
  induction names using List.reverseRecOn with
  | nil => exact Or.inl ⟨List.not_mem_nil, List.nodup_nil⟩
  | append_singleton names name ih =>
    rcases ih with hnames | ⟨e, before, first, after, rfl, hbefore, hfault⟩
    · by_cases hset : name = ""
      · subst hset
        exact Or.inr ⟨_, names, "", [], rfl, hnames, .empty⟩
      · by_cases hmem : name ∈ names
        · exact Or.inr ⟨_, names, name, [], rfl, hnames, .repeated name hset hmem⟩
        · exact Or.inl (hnames.append_singleton name hset hmem)
    · refine Or.inr ⟨e, before, first, after ++ [name], ?_, hbefore, hfault⟩
      rw [List.append_assoc, List.cons_append]

/-- the check passes names that are in order and goes on, with these behind it -/
theorem checkNamesFrom_append (named : Named) (seen names rest : List String)
    (hnames : Unambiguous names) (hnew : ∀ x ∈ names, x ∉ seen) :
    checkNamesFrom named seen (names ++ rest)
      = checkNamesFrom named (names.reverse ++ seen) rest := by
  induction names generalizing seen with
  | nil => rfl
  | cons name names ih =>
    obtain ⟨hempty, hnodup⟩ := hnames
    rw [List.mem_cons, not_or] at hempty
    rw [List.nodup_cons] at hnodup
    have hrest : ∀ x ∈ names, x ∉ name :: seen := by
      intro x hx hmem
      rcases List.mem_cons.mp hmem with rfl | hmem
      · exact hnodup.1 hx
      · exact hnew x (List.mem_cons_of_mem _ hx) hmem
    rw [List.cons_append, checkNamesFrom, if_neg (Ne.symm hempty.1),
      if_neg (hnew name List.mem_cons_self), ih (name :: seen) ⟨hempty.2, hnodup.2⟩ hrest,
      List.reverse_cons, List.append_assoc, List.singleton_append]

theorem checkNames_of_fault (named : Named) (names : List String) (e : ValidationError)
    (h : FirstNameFault named names e) : checkNames named names = .error e := by
  obtain ⟨before, name, after, rfl, hbefore, hfault⟩ := h
  rw [checkNames, checkNamesFrom_append named [] before _ hbefore fun _ _ => List.not_mem_nil,
    List.append_nil, checkNamesFrom]
  cases hfault with
  | empty => rw [if_pos rfl]
  | repeated _ hset hmem => rw [if_neg hset, if_pos (List.mem_reverse.mpr hmem)]

/-! ## hardware addresses -/

def hexDigits : List Char := "0123456789abcdefABCDEF".toList

/-- two hex digits -/
def IsOctet (s : String) : Prop := ∃ a ∈ hexDigits, ∃ b ∈ hexDigits, s = String.ofList [a, b]

/-- six octets with colons between them and nothing else -/
def SixOctets (addr : String) : Prop :=
  ∃ octets : List String, octets.length = 6 ∧ (∀ o ∈ octets, IsOctet o) ∧
    addr = ":".intercalate octets

theorem isHexDigit_iff (c : Char) : isHexDigit c = true ↔ c ∈ hexDigits := by
  constructor
  · intro h
    have hc : c = Char.ofNat c.toNat := (Char.ofNat_toNat c).symm
    have hrange : 48 ≤ c.toNat ∧ c.toNat ≤ 57 ∨ 97 ≤ c.toNat ∧ c.toNat ≤ 102
        ∨ 65 ≤ c.toNat ∧ c.toNat ≤ 70 := by
      simpa [isHexDigit, Char.isDigit, Char.le_def, UInt32.le_iff_toNat_le, or_assoc] using h
    rw [hc]
    rcases hrange with ⟨hl, hu⟩ | ⟨hl, hu⟩ | ⟨hl, hu⟩ <;> interval_cases c.toNat <;> decide
  · have hall : hexDigits.all isHexDigit = true := by decide
    exact List.all_eq_true.mp hall c

/-- an octet stands alone or, where more are to come, in front of a colon and these -/
theorem isOctets_iff_front (more : Nat) (cs : List Char) :
    isOctets more cs = true ↔ ∃ a ∈ hexDigits, ∃ b ∈ hexDigits, more = 0 ∧ cs = [a, b] ∨
      ∃ n rest, more = n + 1 ∧ cs = a :: b :: ':' :: rest ∧ isOctets n rest = true := by
  constructor
  · intro h
    unfold isOctets at h
    split at h
    · next a b rest =>
      rw [Bool.and_eq_true, Bool.and_eq_true, isHexDigit_iff, isHexDigit_iff] at h
      obtain ⟨⟨ha, hb⟩, hrest⟩ := h
      refine ⟨a, ha, b, hb, ?_⟩
      split at hrest
      · exact Or.inl ⟨rfl, rfl⟩
      · next n cs => exact Or.inr ⟨n, cs, rfl, rfl, hrest⟩
      · cases hrest
    · cases h
  · rintro ⟨a, ha, b, hb, ⟨rfl, rfl⟩ | ⟨n, rest, rfl, rfl, hrest⟩⟩
    · simp [isOctets, (isHexDigit_iff _).mpr ha, (isHexDigit_iff _).mpr hb]
    · simp [isOctets, (isHexDigit_iff _).mpr ha, (isHexDigit_iff _).mpr hb, hrest]

theorem isOctets_iff (more : Nat) (cs : List Char) :
    isOctets more cs = true ↔ ∃ octets : List String, octets.length = more + 1 ∧
      (∀ o ∈ octets, IsOctet o) ∧ cs = (":".intercalate octets).toList := by
  induction more generalizing cs with
  | zero =>
    rw [isOctets_iff_front]
    constructor
    · rintro ⟨a, ha, b, hb, ⟨_, rfl⟩ | ⟨n, rest, hn, _⟩⟩
      · refine ⟨[String.ofList [a, b]], rfl, List.forall_mem_singleton.mpr ⟨a, ha, b, hb, rfl⟩, ?_⟩
        rw [String.intercalate_singleton, String.toList_ofList]
      · omega
    · rintro ⟨octets, hlength, hoctets, rfl⟩
      obtain ⟨o, rfl⟩ := List.length_eq_one_iff.mp hlength
      obtain ⟨a, ha, b, hb, rfl⟩ := hoctets o List.mem_cons_self
      rw [String.intercalate_singleton, String.toList_ofList]
      exact ⟨a, ha, b, hb, Or.inl ⟨rfl, rfl⟩⟩
  | succ n ih =>
    rw [isOctets_iff_front]
    constructor
    · rintro ⟨a, ha, b, hb, ⟨h0, _⟩ | ⟨m, rest, hm, rfl, hrest⟩⟩
      · omega
      · obtain rfl : n = m := by omega
        obtain ⟨octets, hlength, hoctets, rfl⟩ := (ih rest).mp hrest
        have hne : octets ≠ [] := List.ne_nil_of_length_eq_add_one hlength
        refine ⟨String.ofList [a, b] :: octets, congrArg (· + 1) hlength,
          List.forall_mem_cons.mpr ⟨⟨a, ha, b, hb, rfl⟩, hoctets⟩, ?_⟩
        simp [String.intercalate_cons_of_ne_nil hne]
    · rintro ⟨octets, hlength, hoctets, rfl⟩
      obtain ⟨o, octets, rfl⟩ := List.exists_cons_of_length_eq_add_one hlength
      obtain ⟨⟨a, ha, b, hb, rfl⟩, hmore⟩ := List.forall_mem_cons.mp hoctets
      have hlength : octets.length = n + 1 := by simpa using hlength
      have hne : octets ≠ [] := List.ne_nil_of_length_eq_add_one hlength
      refine ⟨a, ha, b, hb, Or.inr ⟨n, _, rfl, ?_, (ih _).mpr ⟨octets, hlength, hmore, rfl⟩⟩⟩
      simp [String.intercalate_cons_of_ne_nil hne]

/-- a run over a list ends with the first error -/
theorem forM_of_first_error {ε α : Type} (f : α → Except ε Unit) (before : List α) (x : α)
    (after : List α) (hbefore : ∀ y ∈ before, f y = .ok ()) (e : ε) (hx : f x = .error e) :
    (before ++ x :: after).forM f = .error e := by
  induction before with
  | nil =>
    show (f x >>= fun _ => after.forM f) = .error e
    rw [hx]
    rfl
  | cons y before ih =>
    rw [List.forall_mem_cons] at hbefore
    show (f y >>= fun _ => (before ++ x :: after).forM f) = .error e
    rw [hbefore.1, ← ih hbefore.2]
    rfl

theorem isHardwareAddress_iff (addr : String) : isHardwareAddress addr = true ↔ SixOctets addr := by
  rw [isHardwareAddress, isOctets_iff]
  simp only [SixOctets, String.toList_inj]

/-! ## topologies -/

namespace Topology

/-- names and addresses are all in order -/
structure WellFormed (t : Topology) : Prop where
  nodes : Unambiguous (t.nodes.map (·.name))
  switches : Unambiguous (t.switches.map (·.name))
  addresses : ∀ n ∈ t.nodes, ∀ i ∈ n.interfaces, ∀ addr, i.addr = some addr → SixOctets addr

/-- the first fault among node names, then switch names, then addresses in declaration order -/
inductive FirstFault (t : Topology) : ValidationError → Prop
  | node (e : ValidationError) (h : FirstNameFault .node (t.nodes.map (·.name)) e) : t.FirstFault e
  | switch (e : ValidationError) (hnodes : Unambiguous (t.nodes.map (·.name)))
    (h : FirstNameFault .switch (t.switches.map (·.name)) e) : t.FirstFault e
  | address (before after : List (String × String × String)) (node interface addr : String)
    (hnodes : Unambiguous (t.nodes.map (·.name)))
    (hswitches : Unambiguous (t.switches.map (·.name)))
    (haddresses : t.addresses = before ++ (node, interface, addr) :: after)
    (hbefore : ∀ a ∈ before, SixOctets a.2.2) (h : ¬ SixOctets addr) :
    t.FirstFault (.invalidAddress node interface addr)

section
variable (t : Topology)

theorem mem_addresses (node interface addr : String) :
    (node, interface, addr) ∈ t.addresses ↔ ∃ n ∈ t.nodes, ∃ i ∈ n.interfaces,
      i.addr = some addr ∧ n.name = node ∧ i.name = interface := by
  simp only [addresses, List.mem_flatMap, List.mem_filterMap, Option.map_eq_some_iff, Prod.mk.injEq]
  constructor
  · rintro ⟨n, hn, i, hi, _, haddr, hname, hinterface, rfl⟩
    exact ⟨n, hn, i, hi, haddr, hname, hinterface⟩
  · rintro ⟨n, hn, i, hi, haddr, hname, hinterface⟩
    exact ⟨n, hn, i, hi, addr, haddr, hname, hinterface, rfl⟩

/-- each list is in order, or the first one that is not has a first fault -/
theorem wellFormed_or_fault : t.WellFormed ∨ ∃ e, t.FirstFault e := by
  rcases unambiguous_or_fault .node (t.nodes.map (·.name)) with hnodes | ⟨e, he⟩
  · rcases unambiguous_or_fault .switch (t.switches.map (·.name)) with hswitches | ⟨e, he⟩
    · cases hfind : t.addresses.find? (fun a => !isHardwareAddress a.2.2) with
      | none =>
        refine Or.inl ⟨hnodes, hswitches, fun n hn i hi addr haddr => ?_⟩
        have hmem : (n.name, i.name, addr) ∈ t.addresses :=
          (t.mem_addresses _ _ _).mpr ⟨n, hn, i, hi, haddr, rfl, rfl⟩
        have hgood := List.find?_eq_none.mp hfind _ hmem
        exact (isHardwareAddress_iff addr).mp (by simpa using hgood)
      | some a =>
        obtain ⟨node, interface, addr⟩ := a
        obtain ⟨hbad, before, after, hsplit, hbefore⟩ := List.find?_eq_some_iff_append.mp hfind
        have hbad : ¬ SixOctets addr := by
          rw [← isHardwareAddress_iff]
          simpa using hbad
        refine Or.inr ⟨_, .address before after node interface addr hnodes hswitches hsplit ?_ hbad⟩
        intro a ha
        exact (isHardwareAddress_iff _).mp (by simpa using hbefore a ha)
    · exact Or.inr ⟨e, .switch e hnodes he⟩
  · exact Or.inr ⟨e, .node e he⟩

theorem validate_of_wellFormed (h : t.WellFormed) : t.validate = .ok () := by
  refine t.validate_eq_ok_iff.mpr ⟨(checkNames_eq_ok_iff ..).mpr h.nodes,
    (checkNames_eq_ok_iff ..).mpr h.switches, fun n hn i hi addr haddr => ?_⟩
  exact (isHardwareAddress_iff addr).mpr (h.addresses n hn i hi addr haddr)

theorem validate_of_firstFault (e : ValidationError) (h : t.FirstFault e) :
    t.validate = .error e := by
  cases h with
  | node e h =>
    rw [validate, checkNames_of_fault _ _ e h]
    rfl
  | switch e hnodes h =>
    rw [validate, (checkNames_eq_ok_iff ..).mpr hnodes, checkNames_of_fault _ _ e h]
    rfl
  | address before after node interface addr hnodes hswitches haddresses hbefore h =>
    rw [validate, (checkNames_eq_ok_iff ..).mpr hnodes, (checkNames_eq_ok_iff ..).mpr hswitches,
      haddresses]
    refine forM_of_first_error _ before _ after (fun a ha => ?_) _ ?_
    · exact (checkAddress_eq_ok_iff ..).mpr ((isHardwareAddress_iff _).mpr (hbefore a ha))
    · show checkAddress node interface addr = _
      rw [checkAddress, if_neg fun hok => h ((isHardwareAddress_iff addr).mp hok)]

end

/-- **Validation finds the first fault.**  A topology is accepted exactly if all node names are set
and each different, all switch names likewise, and every address of an interface is six octets;
otherwise the error is the first fault in declaration order, that of node names before that of
switch names before that of addresses.  In a topology that is accepted each node and switch is found
under its own name, and nothing under any other name. -/
theorem validate_faults (t : Topology) :
    (t.validate = .ok () ↔ t.WellFormed) ∧
    (∀ e, t.validate = .error e ↔ t.FirstFault e) ∧
    (t.validate = .ok () →
      (∀ n ∈ t.nodes, t.node? n.name = some n) ∧
      (∀ s ∈ t.switches, t.switch? s.name = some s) ∧
      (∀ name, (∀ n ∈ t.nodes, n.name ≠ name) → t.node? name = none) ∧
      ∀ name, (∀ s ∈ t.switches, s.name ≠ name) → t.switch? name = none) := by
  refine ⟨⟨fun hok => ?_, t.validate_of_wellFormed⟩, fun e => ⟨fun herror => ?_,
    t.validate_of_firstFault e⟩, fun hok => ?_⟩
  · rcases t.wellFormed_or_fault with h | ⟨e, he⟩
    · exact h
    · rw [t.validate_of_firstFault e he] at hok
      cases hok
  · rcases t.wellFormed_or_fault with h | ⟨e', he'⟩
    · rw [t.validate_of_wellFormed h] at herror
      cases herror
    · rw [t.validate_of_firstFault e' he'] at herror
      rwa [← Except.error.inj herror]
  · refine ⟨t.node?_of_mem hok, t.switch?_of_mem hok, fun name hnone => ?_, fun name hnone => ?_⟩
    · exact List.find?_eq_none.mpr fun n hn => by simpa using hnone n hn
    · exact List.find?_eq_none.mpr fun s hs => by simpa using hnone s hs

/-- a switch under its own name, and a name that no node has -/
theorem validate_faults_halfBuilt : HalfBuilt.topology.validate = .ok () ∧
    HalfBuilt.topology.WellFormed ∧
    HalfBuilt.topology.switch? "B0" = some { name := "B0" } ∧
    (∀ n ∈ HalfBuilt.topology.nodes, n.name ≠ "X") ∧ HalfBuilt.topology.node? "X" = none := by
  have hok : HalfBuilt.topology.validate = .ok () := by decide +kernel
  obtain ⟨hwell, _, hfound⟩ := validate_faults HalfBuilt.topology
  obtain ⟨_, hswitch, hnode, _⟩ := hfound hok
  have hother : ∀ n ∈ HalfBuilt.topology.nodes, n.name ≠ "X" := by decide
  exact ⟨hok, hwell.mp hok, hswitch { name := "B0" } (by decide), hother, hnode "X" hother⟩

end Topology

end Netlab
