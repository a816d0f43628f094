import Netlab.Proofs.Host.Effect

/-!
# Walking through a list of commands

A walk keeps what is there: every command adds what it makes and takes away what it removes.
`Runs granted h cs` says that, from `h` on, every command of `cs` is of a known form and finds what
it needs when its turn comes, apart from what is `granted`.

* `runs_iff`             the same, said of every place in the list;
* `runs_append`          one list behind another;
* `mem_walk_of_makes`    what is made stays, if nothing is removed;
* `Builds`               a run that removes nothing: such runs are put together block by block;
* `walk_of_sweeps`       a removal leaves an empty host empty.
-/

namespace Netlab.Host

open Shell (Command)

/-- what is there at a moment of a script -/
abbrev State := List Resource

namespace State

/-- what is there after a command; one of no known form changes nothing -/
def after (h : State) (c : Command) : State :=
  let e := c.effect?.getD {}
  e.makes ++ h.filter (· ∉ e.drops)

def walk (h : State) (cs : List Command) : State := cs.foldl after h

theorem walk_cons (h : State) (c : Command) (cs : List Command) :
    h.walk (c :: cs) = (h.after c).walk cs := rfl
theorem walk_append (h : State) (a b : List Command) : h.walk (a ++ b) = (h.walk a).walk b :=
  List.foldl_append

theorem mem_after (h : State) (c : Command) (e : Effect) (he : c.effect? = some e) (r : Resource) :
    r ∈ h.after c ↔ r ∈ e.makes ∨ r ∈ h ∧ r ∉ e.drops := by
  show r ∈ (c.effect?.getD {}).makes ++ h.filter (· ∉ (c.effect?.getD {}).drops) ↔ _
  rw [he, Option.getD_some, List.mem_append, List.mem_filter, decide_eq_true_eq]

theorem after_of_effect? (h : State) (c : Command) (needs makes : List Resource)
    (he : c.effect? = some { needs, makes }) : h.after c = makes ++ h := by
  show (c.effect?.getD {}).makes ++ h.filter (· ∉ (c.effect?.getD {}).drops) = _
  rw [he, Option.getD_some]
  simp

theorem after_mono (h h' : State) (hsub : h ⊆ h') (c : Command) : h.after c ⊆ h'.after c := by
  intro r hr
  obtain hmade | hkept := List.mem_append.mp hr
  · exact List.mem_append_left _ hmade
  · obtain ⟨hin, hd⟩ := List.mem_filter.mp hkept
    exact List.mem_append_right _ (List.mem_filter.mpr ⟨hsub hin, hd⟩)

end State

/-! ## commands that find what they need -/

/-- the command is of a known form, and what it needs is there or granted -/
def Serves (granted : Resource → Prop) (h : State) (c : Command) : Prop :=
  ∃ e, c.effect? = some e ∧ ∀ r ∈ e.needs, r ∈ h ∨ granted r

/-- every command finds what it needs when its turn comes -/
def Runs (granted : Resource → Prop) : State → List Command → Prop
  | _, [] => True
  | h, c :: cs => Serves granted h c ∧ Runs granted (h.after c) cs

section
variable {granted : Resource → Prop}

theorem runs_append (h : State) (a b : List Command) :
    Runs granted h (a ++ b) ↔ Runs granted h a ∧ Runs granted (h.walk a) b := by
  induction a generalizing h with
  | nil => exact ⟨fun hb => ⟨trivial, hb⟩, And.right⟩
  | cons c cs ih =>
    show Serves granted h c ∧ Runs granted (h.after c) (cs ++ b) ↔ _
    rw [ih, ← and_assoc]
    rfl

theorem runs_iff (h : State) (cs : List Command) :
    Runs granted h cs ↔
      ∀ before c after, cs = before ++ c :: after → Serves granted (h.walk before) c := by
  constructor
  · intro hr before c after hcs
    rw [hcs, runs_append] at hr
    exact hr.2.1
  · intro hs
    induction cs generalizing h with
    | nil => trivial
    | cons c cs ih =>
      refine ⟨hs [] c cs rfl, ih (h.after c) fun before d after hcs => ?_⟩
      exact hs (c :: before) d after (by rw [hcs, List.cons_append])

theorem Serves.mono {h h' : State} {c : Command} (hs : Serves granted h c) (hsub : h ⊆ h') :
    Serves granted h' c := by
  obtain ⟨e, he, hneeds⟩ := hs
  exact ⟨e, he, fun r hr => (hneeds r hr).imp_left fun hin => hsub hin⟩

theorem runs_mono (h h' : State) (hsub : h ⊆ h') (cs : List Command) (hr : Runs granted h cs) :
    Runs granted h' cs := by
  induction cs generalizing h h' with
  | nil => trivial
  | cons c cs ih => exact ⟨hr.1.mono hsub, ih _ _ (State.after_mono h h' hsub c) hr.2⟩

end

/-! ## commands that remove nothing -/

/-- the commands remove nothing -/
def Lasting (cs : List Command) : Prop := ∀ c ∈ cs, ∀ e, c.effect? = some e → e.drops = []

theorem subset_after (h : State) (c : Command) (hl : ∀ e, c.effect? = some e → e.drops = []) :
    h ⊆ h.after c := by
  intro r hr
  cases he : c.effect? with
  | none =>
    show r ∈ (c.effect?.getD {}).makes ++ h.filter (· ∉ (c.effect?.getD {}).drops)
    rw [he]
    simpa using hr
  | some e =>
    rw [State.mem_after h c e he, hl e he]
    exact Or.inr ⟨hr, List.not_mem_nil⟩

theorem subset_walk (h : State) (cs : List Command) (hl : Lasting cs) : h ⊆ h.walk cs := by
  induction cs generalizing h with
  | nil => exact fun _ hr => hr
  | cons c cs ih =>
    intro r hr
    exact ih (h.after c) (fun d hd => hl d (List.mem_cons_of_mem _ hd))
      (subset_after h c (hl c (List.mem_cons_self ..)) hr)

/-- one of the commands makes it -/
def Makes (cs : List Command) (r : Resource) : Prop :=
  ∃ c ∈ cs, ∃ e, c.effect? = some e ∧ r ∈ e.makes

theorem Makes.mono {a b : List Command} {r : Resource} (hm : Makes a r) (hsub : a ⊆ b) :
    Makes b r := by
  obtain ⟨c, hc, hmakes⟩ := hm
  exact ⟨c, hsub hc, hmakes⟩

theorem mem_walk_of_makes (h : State) (cs : List Command) (hl : Lasting cs) (r : Resource)
    (hm : Makes cs r) : r ∈ h.walk cs := by
  obtain ⟨c, hc, e, he, hr⟩ := hm
  obtain ⟨before, after, rfl⟩ := List.append_of_mem hc
  rw [State.walk_append, State.walk_cons]
  refine subset_walk _ after (fun d hd => hl d ?_) ?_
  · exact List.mem_append_right _ (List.mem_cons_of_mem _ hd)
  · exact (State.mem_after _ c e he r).mpr (Or.inl hr)

/-- the commands run from `h` on and remove nothing -/
structure Builds (granted : Resource → Prop) (h : State) (cs : List Command) : Prop where
  runs : Runs granted h cs
  lasting : Lasting cs

namespace Builds
variable {granted : Resource → Prop}

theorem nil (h : State) : Builds granted h [] := ⟨trivial, fun _ hc => (nomatch hc)⟩

theorem subset {h : State} {cs : List Command} (hb : Builds granted h cs) : h ⊆ h.walk cs :=
  subset_walk h cs hb.lasting

theorem mem_walk {h : State} {cs : List Command} (hb : Builds granted h cs) {r : Resource}
    (hm : Makes cs r) : r ∈ h.walk cs := mem_walk_of_makes h cs hb.lasting r hm

theorem mono {h h' : State} {cs : List Command} (hb : Builds granted h cs) (hsub : h ⊆ h') :
    Builds granted h' cs := ⟨runs_mono h h' hsub cs hb.runs, hb.lasting⟩

theorem cons {h : State} {c : Command} {cs : List Command} {needs makes : List Resource}
    (he : c.effect? = some { needs, makes }) (hneeds : ∀ r ∈ needs, r ∈ h ∨ granted r)
    (hrest : Builds granted (makes ++ h) cs) : Builds granted h (c :: cs) := by
  constructor
  · refine ⟨⟨_, he, hneeds⟩, ?_⟩
    rw [State.after_of_effect? h c needs makes he]
    exact hrest.runs
  · intro d hd e hde
    obtain rfl | hd := List.mem_cons.mp hd
    · rw [he] at hde
      obtain rfl := Option.some.inj hde
      rfl
    · exact hrest.lasting d hd e hde

/-- one list behind another that makes what it needs -/
theorem append_walk {h : State} {a b : List Command} (ha : Builds granted h a)
    (hb : Builds granted (h.walk a) b) : Builds granted h (a ++ b) := by
  refine ⟨(runs_append h a b).mpr ⟨ha.runs, hb.runs⟩, fun c hc => ?_⟩
  obtain hc | hc := List.mem_append.mp hc
  · exact ha.lasting c hc
  · exact hb.lasting c hc

/-- one list behind another that it does not depend on -/
theorem append {h : State} {a b : List Command} (ha : Builds granted h a)
    (hb : Builds granted h b) : Builds granted h (a ++ b) := by
  exact ha.append_walk (hb.mono ha.subset)

theorem flatMap {ι : Type} {h : State} (f : ι → List Command) (l : List ι)
    (hf : ∀ x ∈ l, Builds granted h (f x)) : Builds granted h (l.flatMap f) := by
  induction l with
  | nil => exact nil h
  | cons x l ih =>
    rw [List.flatMap_cons]
    exact (hf x (List.mem_cons_self ..)).append (ih fun y hy => hf y (List.mem_cons_of_mem _ hy))

/-- commands that make nothing, each with the same needs -/
theorem map {ι : Type} {h : State} (f : ι → Command) (needs : List Resource)
    (hf : ∀ x, (f x).effect? = some { needs }) (hneeds : ∀ r ∈ needs, r ∈ h ∨ granted r)
    (l : List ι) : Builds granted h (l.map f) := by
  induction l with
  | nil => exact nil h
  | cons x l ih => exact cons (hf x) hneeds ih

end Builds

/-! ## commands that only remove -/

/-- the commands need nothing and make nothing -/
def Sweeps (cs : List Command) : Prop := ∀ c ∈ cs, ∃ drops, c.effect? = some { drops }

theorem runs_of_sweeps {granted : Resource → Prop} (h : State) (cs : List Command)
    (hs : Sweeps cs) : Runs granted h cs := by
  rw [runs_iff]
  intro before c after hcs
  obtain ⟨drops, he⟩ := hs c (by rw [hcs]; simp)
  exact ⟨_, he, fun r hr => absurd hr List.not_mem_nil⟩

theorem walk_of_sweeps (cs : List Command) (hs : Sweeps cs) : State.walk [] cs = [] := by
  induction cs with
  | nil => rfl
  | cons c cs ih =>
    obtain ⟨drops, he⟩ := hs c (List.mem_cons_self ..)
    have hc : State.after [] c = [] := by
      show (c.effect?.getD {}).makes ++ _ = _
      rw [he]
      rfl
    rw [State.walk_cons, hc]
    exact ih fun d hd => hs d (List.mem_cons_of_mem _ hd)

end Netlab.Host
