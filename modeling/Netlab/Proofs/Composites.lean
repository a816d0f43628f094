import Mathlib.Data.List.Nodup
import Netlab.Proofs.Phases
import Netlab.Sample

/-!
# Composite scripts

The script that removes everything and brings it up again is put together from the scripts that do
either, and so is the one that configures all nodes besides.  Putting scripts together is what
`Except` does with their outcomes: the first part that fails is the one that is told.

* `Plan.script_append`         two plans behind the same opening, and the scripts of either;
* `Plan.opens`, `Plan.filled`  a script opens with the commands in front of all, and no section of
                               it is empty;
* `Topology.composites_sum`    the property, of the composite scripts.
-/

namespace Netlab

/-! ## plans behind one opening -/

namespace Plan

theorem sections_append (a b : Plan) : sections (a ++ b) = sections a ++ sections b := by
  simp [sections, List.flatMap_append]

/-- a plan that reports commands and nothing else -/
def Quiet (plan : Plan) : Prop := plan.errors = [] ∧ plan.diagnostics = []

theorem quiet_hooks (phase : Phase) (groups : List HookGroup) : Quiet (hooks phase groups) :=
  ⟨rfl, rfl⟩

section
variable {lead : Plan} (h : lead.Quiet) (a b : Plan)
include h

theorem errors_lead : (lead ++ a).errors = a.errors := by
  rw [errors_append, h.1, List.nil_append]

theorem diagnostics_lead : (lead ++ a).diagnostics = a.diagnostics := by
  rw [diagnostics_append, h.2, List.nil_append]

/-- the diagnostics of two plans run one behind the other are those of the first, extended by what
the second records when it is run on its own -/
theorem skipped_append :
    (lead ++ a ++ b).skipped
      = ⟨lead.sections ++ a.sections ++ b.sections,
          (lead ++ a).skipped.diagnostics.extend (lead ++ b).skipped.diagnostics⟩ := by
  have hsections : (lead ++ a ++ b).sections = lead.sections ++ a.sections ++ b.sections := by
    rw [sections_append, sections_append]
  have hdiagnostics : (lead ++ a ++ b).diagnostics = a.diagnostics ++ b.diagnostics := by
    rw [diagnostics_append, diagnostics_lead h]
  rw [skipped, hsections, hdiagnostics, skipped, skipped, diagnostics_lead h, diagnostics_lead h,
    Diagnostics.extend_pushAll, Diagnostics.extend_empty, Diagnostics.pushAll_append]

theorem script_append (policy : UnitPolicy) :
    (lead ++ a ++ b).script policy = do
      let s ← (lead ++ a).script policy
      let s' ← (lead ++ b).script policy
      return ⟨lead.sections ++ a.sections ++ b.sections, s.diagnostics.extend s'.diagnostics⟩ := by
  have herrors : (lead ++ a ++ b).errors = a.errors ++ b.errors := by
    rw [errors_append, errors_lead h]
  cases policy with
  | skip =>
    rw [script_skip, script_skip, script_skip, skipped_append h]
    rfl
  | abort =>
    rw [script_abort, script_abort, script_abort, herrors, errors_lead h, errors_lead h]
    cases a.errors with
    | cons e es => rfl
    | nil =>
      cases b.errors with
      | cons e es => rfl
      | nil =>
        rw [skipped_append h]
        rfl

end

/-! ## the sections of a script -/

theorem phases_sections (plan : Plan) :
    (plan.sections.map (·.phase)).Sublist (plan.map (·.1)) := by
  induction plan with
  | nil => exact List.Sublist.refl []
  | cons p plan ih =>
    obtain ⟨phase, trace⟩ := p
    rw [sections_cons, List.map_append, List.map_cons, Section.ofPhase]
    split
    · exact ih.cons phase
    · exact ih.cons_cons phase

theorem filled (plan : Plan) : ∀ s ∈ plan.sections, s.commands ≠ [] := by
  intro s hs
  obtain ⟨⟨phase, trace⟩, _, hs⟩ := List.mem_flatMap.mp hs
  simp only [Section.ofPhase] at hs
  split at hs
  · exact absurd hs List.not_mem_nil
  · next hne =>
    obtain rfl := List.mem_singleton.mp hs
    exact fun hnil => hne (List.isEmpty_iff.mpr hnil)

/-- where no phase stands twice, the first one has the first section or none -/
theorem opens (phase : Phase) (trace : Trace) (plan : Plan)
    (hnodup : (((phase, trace) :: plan).map (·.1)).Nodup) (s : Section)
    (hs : s ∈ sections ((phase, trace) :: plan)) (hphase : s.phase = phase) :
    (sections ((phase, trace) :: plan)).head? = some s := by
  rw [List.map_cons, List.nodup_cons] at hnodup
  rw [sections_cons] at hs ⊢
  obtain hs | hs := List.mem_append.mp hs
  · rw [Section.ofPhase] at hs ⊢
    split
    · next hempty =>
      rw [if_pos hempty] at hs
      exact absurd hs List.not_mem_nil
    · next hne =>
      rw [if_neg hne] at hs
      rw [List.mem_singleton.mp hs]
      rfl
  · -- a later section is of a later phase
    have hlater : s.phase ∈ plan.map (·.1) :=
      (phases_sections plan).subset (List.mem_map_of_mem hs)
    rw [hphase] at hlater
    exact absurd hlater hnodup.1

end Plan

/-! ## all scripts -/

theorem Phase.tag_injective : Function.Injective Phase.tag := by
  intro p q h
  rw [← Option.some.injEq, ← p.ofTag?_tag, h, q.ofTag?_tag]

namespace Topology

/-- the commands that every script opens with, as sections -/
def opening (t : Topology) : List Section :=
  Section.ofPhase .precmd (hookCommands t.precmd)

theorem sections_precmdPlan (t : Topology) : t.precmdPlan.sections = t.opening := by
  have hcommands : Trace.commands [.emit (hookCommands t.precmd)] = hookCommands t.precmd :=
    List.append_nil _
  rw [precmdPlan, Plan.hooks, Plan.sections_cons, hcommands, opening]
  exact List.append_nil _

/-- a script that goes by the policy is made from one plan, which opens like all of them and has no
phase twice -/
theorem exists_opened_plan (t : Topology) (handles : HandlePolicy) (r : Request)
    (hr : r ∈ Request.lifecycle) :
    ∃ plan : Plan, (∀ policy, t.script ⟨policy, handles⟩ r = (t.precmdPlan ++ plan).script policy) ∧
      ((t.precmdPlan ++ plan).map (·.1)).Nodup := by
  simp only [Request.lifecycle, List.mem_cons, List.not_mem_nil, or_false] at hr
  obtain rfl | rfl | rfl | rfl | rfl := hr
  · refine ⟨t.upPlan handles, fun _ => rfl, ?_⟩
    show [Phase.precmd, .preinit, .createSwitches, .createNodes, .mountNetns, .wireLinks,
      .postinit].Nodup
    decide
  · refine ⟨t.downPlan, fun _ => rfl, ?_⟩
    show [Phase.precmd, .delete, .postfini].Nodup
    decide
  · refine ⟨t.confPlan, fun _ => rfl, ?_⟩
    show [Phase.precmd, .configure].Nodup
    decide
  · refine ⟨t.downPlan ++ t.upPlan handles, fun _ => rfl, ?_⟩
    show [Phase.precmd, .delete, .postfini, .preinit, .createSwitches, .createNodes, .mountNetns,
      .wireLinks, .postinit].Nodup
    decide
  · refine ⟨t.downPlan ++ t.upPlan handles ++ t.confPlan, fun _ => rfl, ?_⟩
    show [Phase.precmd, .delete, .postfini, .preinit, .createSwitches, .createNodes, .mountNetns,
      .wireLinks, .postinit, .configure].Nodup
    decide

/-- the shape of every script that goes by the policy -/
theorem lifecycle_sections (t : Topology) (o : CompileOptions) (r : Request)
    (hr : r ∈ Request.lifecycle) (s : Script) (hs : t.script o r = .ok s) :
    (s.sections.map (·.phase.tag)).Nodup ∧ (∀ x ∈ s.sections, x.commands ≠ []) ∧
      ∀ x ∈ s.sections, x.phase = .precmd → s.sections.head? = some x := by
  obtain ⟨plan, hplan, hnodup⟩ := t.exists_opened_plan o.handles r hr
  rw [hplan o.policy] at hs
  obtain rfl := Plan.eq_skipped_of_script_eq_ok _ _ s hs
  refine ⟨?_, Plan.filled _, fun x hx hphase => Plan.opens _ _ plan hnodup x hx hphase⟩
  have hphases := (Plan.phases_sections (t.precmdPlan ++ plan)).nodup hnodup
  have htags : (Plan.skipped (t.precmdPlan ++ plan)).sections.map (·.phase.tag)
      = ((t.precmdPlan ++ plan).sections.map (·.phase)).map Phase.tag := by
    rw [List.map_map]
    rfl
  rw [htags]
  exact hphases.map Phase.tag_injective

theorem reup_eq (t : Topology) (o : CompileOptions) :
    t.reup o = do
      let d ← t.down o
      let u ← t.up o
      return ⟨t.opening ++ t.downPlan.sections ++ (t.upPlan o.handles).sections,
        d.diagnostics.extend u.diagnostics⟩ := by
  rw [reup, down, up, ← t.sections_precmdPlan]
  exact Plan.script_append (Plan.quiet_hooks _ _) _ _ o.policy

theorem reconf_eq (t : Topology) (o : CompileOptions) :
    t.reconf o = do
      let s ← t.reup o
      let c ← t.conf o
      return ⟨t.opening ++ (t.downPlan.sections ++ (t.upPlan o.handles).sections)
        ++ t.confPlan.sections, s.diagnostics.extend c.diagnostics⟩ := by
  rw [reconf, reup, conf, List.append_assoc t.precmdPlan, ← t.sections_precmdPlan,
    ← Plan.sections_append]
  exact Plan.script_append (Plan.quiet_hooks _ _) _ _ o.policy

/-- a script made from one plan behind the opening -/
theorem sections_of_script_eq_ok (t : Topology) (policy : UnitPolicy) (plan : Plan) (s : Script)
    (hs : (t.precmdPlan ++ plan).script policy = .ok s) :
    s.sections = t.opening ++ plan.sections := by
  rw [Plan.eq_skipped_of_script_eq_ok _ _ s hs, ← t.sections_precmdPlan]
  exact Plan.sections_append _ _

/-- **Composite scripts are the sum of their parts.**  Behind the opening that all scripts share,
the three single scripts have sections `D`, `U` and `C`, and the composite ones have these one
behind the other.  Their diagnostics are those of the parts, one collection extended by the next.
There is a composite script exactly if there are its parts; otherwise it fails like the first part
that does.  No script has a phase twice or an empty one, and the opening comes first. -/
theorem composites_sum (t : Topology) (o : CompileOptions) :
    ∃ D U C : List Section,
      (∀ s, t.down o = .ok s → s.sections = t.opening ++ D) ∧
      (∀ s, t.up o = .ok s → s.sections = t.opening ++ U) ∧
      (∀ s, t.conf o = .ok s → s.sections = t.opening ++ C) ∧
      (t.reup o = do
        let d ← t.down o
        let u ← t.up o
        return ⟨t.opening ++ D ++ U, d.diagnostics.extend u.diagnostics⟩) ∧
      (t.reconf o = do
        let d ← t.down o
        let u ← t.up o
        let c ← t.conf o
        return ⟨t.opening ++ D ++ U ++ C,
          (d.diagnostics.extend u.diagnostics).extend c.diagnostics⟩) ∧
      ∀ r ∈ Request.lifecycle, ∀ s, t.script o r = .ok s →
        (s.sections.map (·.phase.tag)).Nodup ∧ (∀ x ∈ s.sections, x.commands ≠ []) ∧
          ∀ x ∈ s.sections, x.phase = .precmd → s.sections.head? = some x := by
  refine ⟨t.downPlan.sections, (t.upPlan o.handles).sections, t.confPlan.sections,
    t.sections_of_script_eq_ok o.policy t.downPlan,
    t.sections_of_script_eq_ok o.policy (t.upPlan o.handles),
    t.sections_of_script_eq_ok o.policy t.confPlan, t.reup_eq o, ?_, t.lifecycle_sections o⟩
  rw [t.reconf_eq o, t.reup_eq o]
  -- the binds are put the other way round, and so are the sections
  cases t.down o with
  | error e => rfl
  | ok d =>
    cases t.up o with
    | error e => rfl
    | ok u =>
      show (do let c ← t.conf o; return ⟨_, _⟩ : Except CompileError Script)
        = (do let c ← t.conf o; return ⟨_, _⟩ : Except CompileError Script)
      rw [← List.append_assoc]

/-- the sample has an opening, and it stands once -/
theorem composites_sum_sample : Request.reup ∈ Request.lifecycle ∧
    ∃ d u s U, Sample.topology.down {} = .ok d ∧ Sample.topology.up {} = .ok u ∧
      u.sections = Sample.topology.opening ++ U ∧ Sample.topology.reup {} = .ok s ∧
      s.sections = d.sections ++ U ∧ (s.sections.map (·.phase.tag)).Nodup := by
  have hr : Request.reup ∈ Request.lifecycle := by decide
  have hdown : Sample.topology.down {} = .ok _ :=
    Plan.script_eq_ok_of_errors_nil _ .abort (by decide +kernel)
  have hup : Sample.topology.up {} = .ok _ :=
    Plan.script_eq_ok_of_errors_nil _ .abort (by decide +kernel)
  obtain ⟨D, U, C, hD, hU, _, hreup, _, hshape⟩ := composites_sum Sample.topology {}
  rw [hdown, hup] at hreup
  refine ⟨hr, _, _, _, U, hdown, hup, hU _ hup, hreup, ?_, (hshape .reup hr _ hreup).1⟩
  rw [hD _ hdown]

end Topology

end Netlab
