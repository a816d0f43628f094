import Mathlib.Data.List.Basic
import Netlab.Files
import Netlab.Proofs.Topology.Names

/-!
# Files read and written

* `FileTree.locate_put`         a path leads to the same place once a file is put somewhere;
* `FileTree.write_eq_ok_iff`    where a file can be written, and what comes of it;
* `FileTree.write_of_writable`  what is written to an ordinary file is read there, and no other file
                                changes.
-/

namespace Netlab

/-- a failure in front of everything else, under a condition -/
theorem guarded_eq_ok {ε α : Type} (c : Prop) [Decidable c] (e : ε) (f : PUnit → Except ε α)
    (x : Except ε α) (a : α) :
    (if c then throw e >>= f else x) = .ok a ↔ ¬ c ∧ x = .ok a := by
  by_cases hc : c
  · rw [if_pos hc]
    exact ⟨nofun, fun h => absurd hc h.1⟩
  · rw [if_neg hc]
    exact ⟨fun h => ⟨hc, h⟩, And.right⟩

namespace FileTree

section
variable (t : FileTree) (names : List String) (f : File)

/-! ## a file put in its place -/

theorem file?_put : (t.put names f).file? names = some f := by
  rw [put, file?, List.lookup_cons_self, Option.some_or]

theorem lookup_filter_ne (files : List (List String × File)) (other : List String)
    (h : other ≠ names) : (files.filter (·.1 ≠ names)).lookup other = files.lookup other := by
  induction files with
  | nil => rfl
  | cons x files ih =>
    obtain ⟨key, g⟩ := x
    by_cases hkey : key = names
    · have hne : (other == key) = false := by rw [hkey]; exact beq_false_of_ne h
      rw [List.filter_cons_of_neg (by simp [hkey]), ih, List.lookup_cons, hne]
    · rw [List.filter_cons_of_pos (by simp [hkey]), List.lookup_cons, List.lookup_cons, ih]

theorem file?_put_of_ne (other : List String) (h : other ≠ names) :
    (t.put names f).file? other = t.file? other := by
  have hne : (other == names) = false := beq_false_of_ne h
  rw [put, file?, file?, List.lookup_cons, hne]
  simp only [lookup_filter_ne names t.files other h]

/-- every file that was there is there, though it may hold something else -/
theorem names_subset_put : t.files.map (·.1) ⊆ (t.put names f).files.map (·.1) := by
  intro key hkey
  obtain ⟨x, hx, rfl⟩ := List.mem_map.mp hkey
  by_cases h : x.1 = names
  · rw [h]
    exact List.mem_cons_self ..
  · refine List.mem_cons_of_mem _ (List.mem_map_of_mem (List.mem_filter.mpr ⟨hx, ?_⟩))
    exact decide_eq_true h

theorem isDirectory_put (place : List String) (h : t.isDirectory place = true) :
    (t.put names f).isDirectory place = true := by
  simp only [isDirectory, Bool.or_eq_true, List.any_eq_true, List.mem_cons] at h ⊢
  obtain h | ⟨below, hbelow, h⟩ := h
  · exact Or.inl h
  · refine Or.inr ⟨below, ?_, h⟩
    exact hbelow.imp_right fun hmem => t.names_subset_put names f hmem

theorem enter_eq_ok_iff (place : List String) (name : String) (next : List String) :
    t.enter place name = .ok next ↔ lookIn place name = .ok next ∧ t.isDirectory next = true := by
  rw [enter, bind_eq_ok]
  constructor
  · rintro ⟨next', hnext, h⟩
    by_cases hdir : t.isDirectory next' = true
    · rw [if_pos hdir] at h
      obtain rfl := Except.ok.inj h
      exact ⟨hnext, hdir⟩
    · rw [if_neg hdir] at h
      cases h
  · rintro ⟨hnext, hdir⟩
    exact ⟨next, hnext, by rw [if_pos hdir]; rfl⟩

theorem walk_put (steps : List String) (place last : List String)
    (h : steps.foldlM t.enter place = .ok last) :
    steps.foldlM (t.put names f).enter place = .ok last := by
  induction steps generalizing place with
  | nil => exact h
  | cons name steps ih =>
    rw [List.foldlM_cons, bind_eq_ok] at h ⊢
    obtain ⟨next, hnext, h⟩ := h
    rw [enter_eq_ok_iff] at hnext
    refine ⟨next, ?_, ih next h⟩
    rw [enter_eq_ok_iff]
    exact ⟨hnext.1, t.isDirectory_put names f next hnext.2⟩

/-! ## where a path leads -/

theorem lastStep_eq_ok_iff (path : String) (directory : List String) (name : String) :
    t.lastStep path = .ok (directory, name) ↔
      checkPath path = .ok () ∧
        (pathSteps path).dropLast.foldlM t.enter (pathStart path) = .ok directory ∧
          (pathSteps path).getLastD "." = name := by
  rw [lastStep, bind_eq_ok]
  constructor
  · rintro ⟨_, hpath, h⟩
    obtain ⟨directory', hwalk, h⟩ := (bind_eq_ok _ _ _).mp h
    obtain ⟨rfl, hname⟩ := Prod.mk.inj (Except.ok.inj h)
    exact ⟨hpath, hwalk, hname⟩
  · rintro ⟨hpath, hwalk, rfl⟩
    exact ⟨(), hpath, (bind_eq_ok _ _ _).mpr ⟨directory, hwalk, rfl⟩⟩

theorem locate_eq_ok_iff (path : String) (place : List String) :
    t.locate path = .ok place ↔
      ∃ directory name, t.lastStep path = .ok (directory, name) ∧
        lookIn directory name = .ok place := by
  rw [locate, bind_eq_ok]
  exact ⟨fun ⟨(directory, name), h⟩ => ⟨directory, name, h⟩,
    fun ⟨directory, name, h⟩ => ⟨(directory, name), h⟩⟩

/-- no path is led elsewhere by a file that is put somewhere -/
theorem locate_put (path : String) (place : List String) (h : t.locate path = .ok place) :
    (t.put names f).locate path = .ok place := by
  rw [locate_eq_ok_iff] at h ⊢
  obtain ⟨directory, name, hlast, hplace⟩ := h
  rw [lastStep_eq_ok_iff] at hlast
  obtain ⟨hpath, hwalk, hname⟩ := hlast
  refine ⟨directory, name, ?_, hplace⟩
  rw [lastStep_eq_ok_iff]
  exact ⟨hpath, t.walk_put names f _ _ _ hwalk, hname⟩

end

/-! ## writing -/

variable (t t' : FileTree) (path text : String)

theorem write_eq_ok_iff :
    t.write path text = .ok t' ↔
      ∃ names, t.locate path = .ok names ∧ asksDirectory path = false ∧
        t.isDirectory names = false ∧ t' = t.put names ⟨kept names text, true⟩ := by
  simp only [write, locate_eq_ok_iff, bind_eq_ok, guarded_eq_ok, Bool.not_eq_true]
  constructor
  · rintro ⟨⟨directory, name⟩, hlast, hslash, names, hnames, hdir, h⟩
    exact ⟨names, ⟨directory, name, hlast, hnames⟩, hslash, hdir, (Except.ok.inj h).symm⟩
  · rintro ⟨names, ⟨directory, name, hlast, hnames⟩, hslash, hdir, rfl⟩
    exact ⟨(directory, name), hlast, hslash, names, hnames, hdir, rfl⟩

/-- a path where an ordinary file can be written -/
def Writable (t : FileTree) (path : String) : Prop :=
  t.locate path ≠ .ok nullDevice ∧ ∃ text t', t.write path text = .ok t'

/-- What is written has no part in whether it can be. -/
theorem writable_iff :
    t.Writable path ↔
      ∃ names, t.locate path = .ok names ∧ names ≠ nullDevice ∧ asksDirectory path = false ∧
        t.isDirectory names = false := by
  simp only [Writable, write_eq_ok_iff]
  constructor
  · rintro ⟨hordinary, _, _, names, hplace, hslash, hdir, -⟩
    exact ⟨names, hplace, fun h => hordinary (h ▸ hplace), hslash, hdir⟩
  · rintro ⟨names, hplace, hordinary, hslash, hdir⟩
    refine ⟨fun h => hordinary (Except.ok.inj (hplace.symm.trans h)), ?_⟩
    exact ⟨"", _, names, hplace, hslash, hdir, rfl⟩

/-- Where a file can be written, it can be written with any text; it is read as that text, and no
other file changes. -/
theorem write_of_writable (h : t.Writable path) :
    ∃ t', t.write path text = .ok t' ∧ t'.read path = .ok text.toUTF8 ∧
      ∀ other, t.locate path ≠ .ok other → t'.file? other = t.file? other := by
  obtain ⟨names, hplace, hordinary, hslash, hdir⟩ := (t.writable_iff path).mp h
  have hkept : kept names text = text.toUTF8 := if_neg hordinary
  refine ⟨t.put names ⟨text.toUTF8, true⟩, ?_, ?_, ?_⟩
  · rw [write_eq_ok_iff]
    exact ⟨names, hplace, hslash, hdir, by rw [hkept]⟩
  · rw [read, bind_eq_ok]
    refine ⟨names, t.locate_put names _ path names hplace, ?_⟩
    rw [file?_put]
    dsimp only
    rw [if_neg (Bool.eq_false_iff.mp hslash)]
    rfl
  · intro other hother
    refine t.file?_put_of_ne names _ other fun h => hother ?_
    rw [h, hplace]

end FileTree

end Netlab
