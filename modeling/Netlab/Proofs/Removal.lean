import Netlab.Files
import Netlab.Proofs.Teardown

/-!
# What a removal of handles reaches

The handle of a node is removed by its path, which is the directory of handles with the name of the
node behind a slash.  A name may hold slashes and dots, so the path may lead elsewhere.  It leads to
the handle of that name exactly if the name can be that of a file.

* `resolved_handle_iff`            the property, of one path;
* `Topology.mem_removals_iff`      the paths that a script removes are those of handles;
* `Topology.removed_inside_iff`    the property, of a script;
* `Topology.parent_removed`        a node whose removal takes more than a handle away.
-/

namespace Netlab

open Shell (Command)

/-! ## paths -/

/-- the names on the way to what a path leads to, `.`, `..` and repeated slashes resolved -/
def resolved (path : String) : List String :=
  (pathSteps path).foldl FileTree.step (pathStart path)

/-- a name that a file in a directory can have -/
def IsFileName (name : String) : Prop :=
  name ≠ "" ∧ '/' ∉ name.toList ∧ name ≠ "." ∧ name ≠ ".."

theorem pathParts_ne_nil (cs : List Char) : pathParts cs ≠ [] := by
  cases cs with
  | nil => exact List.cons_ne_nil _ _
  | cons c cs =>
    rw [pathParts]
    split
    · exact List.cons_ne_nil _ _
    · split <;> exact List.cons_ne_nil _ _

theorem pathParts_slash (cs : List Char) : pathParts ('/' :: cs) = [] :: pathParts cs := by
  rw [pathParts]
  split
  · next h => exact absurd h (pathParts_ne_nil cs)
  · next h => rw [if_pos rfl, h]

theorem pathParts_cons (c : Char) (hc : c ≠ '/') (cs part : List Char) (parts : List (List Char))
    (h : pathParts cs = part :: parts) : pathParts (c :: cs) = (c :: part) :: parts := by
  rw [pathParts, h]
  exact if_neg hc

theorem pathParts_append (a b : List Char) :
    pathParts (a ++ '/' :: b) = pathParts a ++ pathParts b := by
  induction a with
  | nil => exact pathParts_slash b
  | cons c a ih =>
    by_cases hc : c = '/'
    · subst hc
      rw [List.cons_append, pathParts_slash, pathParts_slash, ih, List.cons_append]
    · obtain ⟨part, parts, hparts⟩ := List.exists_cons_of_ne_nil (pathParts_ne_nil a)
      rw [hparts, List.cons_append] at ih
      rw [List.cons_append, pathParts_cons c hc _ _ _ ih, pathParts_cons c hc _ _ _ hparts,
        List.cons_append]

/-- a text without a slash is one part -/
theorem pathParts_of_not_mem (cs : List Char) (h : '/' ∉ cs) : pathParts cs = [cs] := by
  induction cs with
  | nil => rfl
  | cons c cs ih =>
    rw [List.mem_cons, not_or] at h
    exact pathParts_cons c (Ne.symm h.1) cs cs [] (ih h.2)

theorem not_mem_of_mem_pathParts (cs : List Char) : ∀ part ∈ pathParts cs, '/' ∉ part := by
  induction cs with
  | nil => exact List.forall_mem_singleton.mpr List.not_mem_nil
  | cons c cs ih =>
    by_cases hc : c = '/'
    · subst hc
      rw [pathParts_slash]
      exact List.forall_mem_cons.mpr ⟨List.not_mem_nil, ih⟩
    · obtain ⟨part, parts, hparts⟩ := List.exists_cons_of_ne_nil (pathParts_ne_nil cs)
      rw [hparts, List.forall_mem_cons] at ih
      rw [pathParts_cons c hc cs part parts hparts, List.forall_mem_cons]
      exact ⟨List.not_mem_cons_of_ne_of_not_mem (Ne.symm hc) ih.1, ih.2⟩

theorem not_mem_of_mem_pathSteps (path : String) : ∀ x ∈ pathSteps path, '/' ∉ x.toList := by
  intro x hx
  obtain ⟨part, hpart, rfl⟩ := List.mem_map.mp hx
  rw [String.toList_ofList]
  exact not_mem_of_mem_pathParts path.toList part (List.mem_of_mem_filter hpart)

theorem pathSteps_of_not_mem (name : String) (hset : name ≠ "") (h : '/' ∉ name.toList) :
    pathSteps name = [name] := by
  have hne : name.toList.isEmpty = false := by
    simpa [List.isEmpty_iff] using hset
  rw [pathSteps, pathParts_of_not_mem _ h, List.filter_cons_of_pos (by rw [hne]; rfl),
    List.filter_nil, List.map_singleton, String.ofList_toList]

/-! ## handles -/

theorem resolved_directory : resolved Netns.directory = ["/", "var", "run", "netns"] := by
  decide +kernel

/-- the path of a handle goes on from the directory of handles by the steps of the name -/
theorem resolved_handle (name : String) :
    resolved (Netns.handle name)
      = (pathSteps name).foldl FileTree.step (resolved Netns.directory) := by
  have hchars : (Netns.handle name).toList = Netns.directory.toList ++ '/' :: name.toList := by
    simp [Netns.handle]
  have hsteps : pathSteps (Netns.handle name) = pathSteps Netns.directory ++ pathSteps name := by
    rw [pathSteps, hchars, pathParts_append, List.filter_append, List.map_append]
    rfl
  have hstart : pathStart (Netns.handle name) = pathStart Netns.directory := by
    rw [pathStart, hchars]
    rfl
  rw [resolved, hsteps, hstart, List.foldl_append]
  rfl

/-- The way is from the root, and no name on it holds a slash. -/
def Rooted (names : List String) : Prop :=
  ∃ rest, names = "/" :: rest ∧ ∀ x ∈ rest, '/' ∉ x.toList

theorem Rooted.step {names : List String} (h : Rooted names) (name : String)
    (hname : '/' ∉ name.toList) : Rooted (FileTree.step names name) := by
  obtain ⟨rest, rfl, hrest⟩ := h
  unfold FileTree.step
  split
  · exact ⟨rest, rfl, hrest⟩
  · have hroot : ("/" :: rest).all (· = "..") = false := by simp
    rw [hroot]
    split
    · exact ⟨rest, rfl, hrest⟩
    · next hne =>
      have hrest' : rest ≠ [] := fun hnil => hne (by rw [hnil])
      refine ⟨rest.dropLast, ?_, fun x hx => hrest x (List.dropLast_subset rest hx)⟩
      rw [if_neg Bool.false_ne_true, List.dropLast_cons_of_ne_nil hrest']
  · refine ⟨rest ++ [name], rfl, List.forall_mem_append.mpr ⟨hrest, ?_⟩⟩
    exact List.forall_mem_singleton.mpr hname

theorem Rooted.foldl {names : List String} (h : Rooted names) (steps : List String)
    (hsteps : ∀ x ∈ steps, '/' ∉ x.toList) : Rooted (steps.foldl FileTree.step names) := by
  induction steps generalizing names with
  | nil => exact h
  | cons x steps ih =>
    rw [List.forall_mem_cons] at hsteps
    exact ih (h.step x hsteps.1) hsteps.2

theorem rooted_handle (name : String) : Rooted (resolved (Netns.handle name)) := by
  have hdirectory : Rooted (resolved Netns.directory) := by
    rw [resolved_directory]
    exact ⟨_, rfl, by decide⟩
  rw [resolved_handle]
  exact hdirectory.foldl _ (not_mem_of_mem_pathSteps name)

/-- a path leads to the handle of a name exactly if a file can have that name -/
theorem resolved_handle_iff (name : String) :
    resolved (Netns.handle name) = resolved Netns.directory ++ [name] ↔ IsFileName name := by
  constructor
  · intro h
    have hslash : '/' ∉ name.toList := by
      obtain ⟨rest, hrest, hall⟩ := rooted_handle name
      rw [h, resolved_directory] at hrest
      obtain rfl := (List.cons.inj hrest).2
      exact hall name (by simp)
    rw [resolved_handle] at h
    refine ⟨?_, hslash, ?_, ?_⟩
    · rintro rfl
      revert h
      decide +kernel
    · rintro rfl
      revert h
      decide +kernel
    · rintro rfl
      revert h
      decide +kernel
  · rintro ⟨hset, hslash, hdot, hdots⟩
    rw [resolved_handle, pathSteps_of_not_mem name hset hslash, List.foldl_cons, List.foldl_nil,
      FileTree.step]
    · exact hdot
    · exact hdots

/-! ## commands that remove a path -/

/-- the program that a command calls -/
def Shell.Command.program? : Command → Option String
  | .argv (program :: _) => some program
  | _ => none

/-- the command that removes a path with all below it -/
def removePath (path : String) : Command := .argv ["rm", "-rf", path]

theorem program?_address (n i : String) (addr : Option String) (c : Command)
    (hc : c ∈ Link.addressCommands n i addr) : c.program? = some "ip" := by
  obtain ⟨a, rfl⟩ := Link.exists_of_mem_address n i addr c hc
  rfl

/-- links are wired by one program -/
theorem program?_link (l : Link) (n : String) (kind : NodeKind) (i : String) (addr : Option String)
    (handles : HandlePolicy) (c : Command) (hc : c ∈ l.commands n kind i addr handles) :
    c.program? = some "ip" := by
  obtain hc | hc | ⟨a, rfl⟩ := l.mem_commands n kind i addr handles c hc
  · have hpair : ∀ c ∈ l.pairCommands n i, c.program? = some "ip" := by
      cases l <;> simp [Link.pairCommands, Link.hostPair, Link.vethCreate, Bridge.attach,
        Command.program?]
    exact hpair c hc
  · cases hc <;> rfl
  · rfl

theorem program?_create (n : Node) (kind : NodeKind) (cmds : List Command)
    (h : n.create kind = .ok cmds) : ∀ c ∈ cmds, c.program? ≠ some "rm" := by
  cases kind with
  | container =>
    obtain ⟨image, rfl⟩ := n.create_container cmds h
    refine List.forall_mem_singleton.mpr ?_
    show some "docker" ≠ some "rm"
    decide
  | netns =>
    obtain rfl := Except.ok.inj h
    intro c hc
    have hip : c.program? = some "ip" := by
      simp only [List.cons_append, List.mem_cons, List.mem_append, List.mem_map, List.not_mem_nil,
        or_false] at hc
      rcases hc with rfl | ⟨v, _, rfl⟩ | rfl <;> rfl
    rw [hip]
    decide

theorem program?_mount (kind : NodeKind) (n : String) :
    ∀ c ∈ kind.mount n, c.program? ≠ some "rm" := by
  cases kind <;> simp [NodeKind.mount, Netns.mount, Netns.containerPid, Command.program?]

theorem program?_hooks (groups : List HookGroup) :
    ∀ c ∈ hookCommands groups, c.program? ≠ some "rm" := by
  intro c hc
  obtain ⟨g, _, hc⟩ := List.mem_flatMap.mp hc
  obtain ⟨line, _, rfl⟩ := List.mem_map.mp hc
  nofun

namespace Topology

section
variable (t : Topology)

/-- the commands of all phases but one remove no path -/
theorem program?_phases (handles : HandlePolicy) (phase : Phase) (trace : Trace)
    (hp : (phase, trace) ∈ t.precmdPlan ++ t.downPlan ++ t.upPlan handles ++ t.confPlan)
    (hdelete : phase ≠ .delete) : ∀ c ∈ trace.commands, c.program? ≠ some "rm" := by
  have hhooks (groups : List HookGroup) :
      ∀ c ∈ Trace.commands [.emit (hookCommands groups)], c.program? ≠ some "rm" := by
    intro c hc
    exact program?_hooks groups c (by simpa [Trace.commands] using hc)
  simp only [precmdPlan, downPlan, upPlan, confPlan, Plan.hooks, List.mem_append, List.mem_cons,
    List.not_mem_nil, or_false, Prod.mk.injEq] at hp
  obtain ((hp | hp | hp) | (hp | hp | hp | hp | hp) | hp) | hp := hp <;> obtain ⟨rfl, rfl⟩ := hp
  · exact hhooks t.precmd
  · exact absurd rfl hdelete
  · exact hhooks t.postfini
  · exact hhooks t.preinit
  · intro c hc
    have hc : c ∈ t.createSwitches := by simpa [Trace.commands] using hc
    obtain ⟨s, _, hc⟩ := List.mem_flatMap.mp hc
    have hbridge : ∀ c ∈ Bridge.create s.name, c.program? ≠ some "rm" := by
      simp [Bridge.create, Host.linkUp, Command.program?]
    exact hbridge c hc
  · intro c hc
    obtain ⟨cmds, hr, hc⟩ := (Trace.mem_commands _ _).mp hc
    obtain ⟨n, _, kind, _, hcreate⟩ := (t.emit_mem_createNodes cmds).mp hr
    exact program?_create n kind cmds hcreate c hc
  · intro c hc
    obtain ⟨cmds, hr, hc⟩ := (Trace.mem_commands _ _).mp hc
    obtain ⟨n, _, kind, _, rfl⟩ := (t.emit_mem_mountNetns cmds).mp hr
    exact program?_mount kind n.name c hc
  · intro c hc
    obtain ⟨cmds, hr, hc⟩ := (Trace.mem_commands _ _).mp hc
    have hip : c.program? = some "ip" := by
      obtain ⟨n, _, kind, _, i, _, rfl | ⟨l, _, rfl, _⟩⟩ := t.emit_mem_wireLinks cmds handles hr
      · exact program?_address n.name i.name i.addr c hc
      · exact program?_link l n.name kind i.name i.addr handles c hc
    rw [hip]
    decide
  · exact hhooks t.postinit
  · intro c hc
    obtain ⟨cmds, hr, hc⟩ := (Trace.mem_commands _ _).mp hc
    obtain ⟨config, _, n, _, kind, _, rfl⟩ := (t.emit_mem_configure cmds).mp hr
    obtain ⟨line, _, rfl⟩ := List.mem_map.mp hc
    show none ≠ some "rm"
    decide

/-- each node of a known type has one handle that is left behind -/
theorem handle_mem_remnants_iff (name : String) :
    .handle name ∈ t.remnants ↔ ∃ n ∈ t.nodes, (∃ kind, n.kind = .ok kind) ∧ n.name = name := by
  have hnode (n : Node) : .handle name ∈ nodeRemnants n.name n.type ↔
      (∃ kind, n.kind = .ok kind) ∧ n.name = name := by
    obtain ⟨kind, hk, h⟩ | ⟨e, he, h⟩ := n.kind_cases
    · rw [h, and_iff_right ⟨kind, hk⟩]
      cases kind <;> simp [NodeKind.remnants, eq_comm]
    · rw [h]
      refine iff_of_false List.not_mem_nil ?_
      rintro ⟨⟨kind, hk⟩, _⟩
      rw [he] at hk
      cases hk
  rw [remnants, List.mem_append, List.mem_flatMap, List.mem_map]
  constructor
  · rintro (⟨n, hn, hmem⟩ | ⟨s, _, hs⟩)
    · exact ⟨n, hn, (hnode n).mp hmem⟩
    · cases hs
  · rintro ⟨n, hn, hmem⟩
    exact Or.inl ⟨n, hn, (hnode n).mpr hmem⟩

/-- the paths that are removed are those of the handles -/
theorem removePath_mem_delete_iff (path : String) :
    removePath path ∈ t.delete.commands ↔
      ∃ n ∈ t.nodes, (∃ kind, n.kind = .ok kind) ∧ path = Netns.handle n.name := by
  rw [delete_commands, List.mem_map]
  constructor
  · rintro ⟨m, hm, hremoval⟩
    cases m with
    | handle name =>
      obtain ⟨n, hn, hk, rfl⟩ := (t.handle_mem_remnants_iff name).mp hm
      have hpath : [Netns.handle n.name] = [path] := by
        simpa [Remnant.removal, removePath] using hremoval
      exact ⟨n, hn, hk, (List.cons.inj hpath).1.symm⟩
    | container name | netns name | bridge name =>
      have hprogram := congrArg Command.program? hremoval
      simp [Remnant.removal, removePath, Command.program?] at hprogram
  · rintro ⟨n, hn, hk, rfl⟩
    exact ⟨.handle n.name, (t.handle_mem_remnants_iff n.name).mpr ⟨n, hn, hk, rfl⟩, rfl⟩

end

end Topology

/-! ## scripts -/

theorem Plan.mem_commands_skipped (plan : Plan) (c : Command) :
    c ∈ plan.skipped.commands ↔ ∃ phase trace, (phase, trace) ∈ plan ∧ c ∈ trace.commands := by
  rw [Script.commands, List.mem_flatMap]
  constructor
  · rintro ⟨s, hs, hc⟩
    obtain ⟨trace, hp, hcommands⟩ := mem_sections plan s hs
    exact ⟨s.phase, trace, hp, hcommands ▸ hc⟩
  · rintro ⟨phase, trace, hp, hc⟩
    refine ⟨⟨phase, trace.commands⟩, List.mem_flatMap.mpr ⟨_, hp, ?_⟩, hc⟩
    have hne : trace.commands.isEmpty = false := by
      rw [List.isEmpty_eq_false_iff]
      exact List.ne_nil_of_mem hc
    show _ ∈ Section.ofPhase phase trace.commands
    rw [Section.ofPhase, if_neg (by rw [hne]; exact Bool.false_ne_true)]
    exact List.mem_singleton_self _

/-- the requests whose scripts take a topology down -/
def Request.clearing : List Request := [.down, .reup, .reconf]

namespace Topology

/-- a script that takes a topology down is made from a plan with the phase of removal, all phases of
which are among those of the longest such script -/
theorem exists_clearing_plan (t : Topology) (o : CompileOptions) (r : Request)
    (hr : r ∈ Request.clearing) : ∃ plan : Plan, t.script o r = plan.script o.policy ∧
      (.delete, t.delete) ∈ plan ∧
      plan ⊆ t.precmdPlan ++ t.downPlan ++ t.upPlan o.handles ++ t.confPlan := by
  have hdelete : (.delete, t.delete) ∈ t.precmdPlan ++ t.downPlan :=
    List.mem_append_right _ (List.mem_cons_self ..)
  simp only [Request.clearing, List.mem_cons, List.not_mem_nil, or_false] at hr
  rcases hr with rfl | rfl | rfl
  · refine ⟨t.precmdPlan ++ t.downPlan, rfl, hdelete, ?_⟩
    rw [List.append_assoc _ (t.upPlan o.handles)]
    exact List.subset_append_left _ _
  · exact ⟨t.precmdPlan ++ t.downPlan ++ t.upPlan o.handles, rfl, List.mem_append_left _ hdelete,
      List.subset_append_left _ _⟩
  · exact ⟨_, rfl, List.mem_append_left _ (List.mem_append_left _ hdelete), List.Subset.refl _⟩

/-- a script that takes a topology down removes the handles of all nodes of a known type, and no
other path -/
theorem mem_removals_iff (t : Topology) (o : CompileOptions) (r : Request)
    (hr : r ∈ Request.clearing) (s : Script) (hs : t.script o r = .ok s) (path : String) :
    removePath path ∈ s.commands ↔
      ∃ n ∈ t.nodes, (∃ kind, n.kind = .ok kind) ∧ path = Netns.handle n.name := by
  obtain ⟨plan, hplan, hdelete, hsub⟩ := t.exists_clearing_plan o r hr
  rw [hplan] at hs
  obtain rfl := plan.eq_skipped_of_script_eq_ok o.policy s hs
  rw [Plan.mem_commands_skipped, ← t.removePath_mem_delete_iff]
  constructor
  · rintro ⟨phase, trace, hp, hc⟩
    by_cases hphase : phase = .delete
    · subst hphase
      have htrace : trace = t.delete := by
        simpa [precmdPlan, downPlan, upPlan, confPlan, Plan.hooks] using hsub hp
      rwa [htrace] at hc
    · exact absurd rfl (t.program?_phases o.handles phase trace (hsub hp) hphase _ hc)
  · exact fun hc => ⟨.delete, t.delete, hdelete, hc⟩

/-- **Removals stay inside.**  In a well-formed topology, each path that a script removes leads to
the handle of a node under its own name, exactly if all nodes of a known type have names that files
can have.  Then it is a direct child of the directory of handles, and paths of different nodes lead
to different ones. -/
theorem removed_inside_iff (t : Topology) (hvalid : t.validate = .ok ()) (o : CompileOptions)
    (r : Request) (hr : r ∈ Request.clearing) (s : Script) (hs : t.script o r = .ok s) :
    ((∀ path, removePath path ∈ s.commands → ∃ n ∈ t.nodes, path = Netns.handle n.name ∧
        resolved path = resolved Netns.directory ++ [n.name]) ↔
      ∀ n ∈ t.nodes, (∃ kind, n.kind = .ok kind) → IsFileName n.name) ∧
    ∀ n ∈ t.nodes, ∀ m ∈ t.nodes, IsFileName n.name → IsFileName m.name → n ≠ m →
      resolved (Netns.handle n.name) ≠ resolved (Netns.handle m.name) := by
  constructor
  · constructor
    · intro h n hn hk
      obtain ⟨m, _, hpath, hresolved⟩ :=
        h _ ((t.mem_removals_iff o r hr s hs _).mpr ⟨n, hn, hk, rfl⟩)
      rw [hpath] at hresolved
      have hname : n.name = m.name := by
        rw [← Option.some.injEq, ← Host.handleOwner?_handle, hpath, Host.handleOwner?_handle]
      rw [hname]
      exact (resolved_handle_iff m.name).mp hresolved
    · intro h path hpath
      obtain ⟨n, hn, hk, rfl⟩ := (t.mem_removals_iff o r hr s hs path).mp hpath
      exact ⟨n, hn, rfl, (resolved_handle_iff n.name).mpr (h n hn hk)⟩
  · intro n hn m hm hfile hfile' hne heq
    rw [(resolved_handle_iff n.name).mpr hfile, (resolved_handle_iff m.name).mpr hfile'] at heq
    have hname : n.name = m.name := by simpa using heq
    -- names tell nodes apart
    have hfind := t.node?_of_mem hvalid n hn
    rw [hname, t.node?_of_mem hvalid m hm] at hfind
    exact hne (Option.some.inj hfind).symm

theorem removed_inside_halfBuilt : HalfBuilt.topology.validate = .ok () ∧
    Request.reconf ∈ Request.clearing ∧
    ∃ s, HalfBuilt.topology.script ⟨.skip, .keep⟩ .reconf = .ok s ∧
      removePath "/var/run/netns/R1" ∈ s.commands ∧
      ∃ n ∈ HalfBuilt.topology.nodes, "/var/run/netns/R1" = Netns.handle n.name ∧
        resolved "/var/run/netns/R1" = ["/", "var", "run", "netns", n.name] := by
  have hvalid : HalfBuilt.topology.validate = .ok () := by decide +kernel
  have hr : Request.reconf ∈ Request.clearing := by decide
  have hs : HalfBuilt.topology.reconf ⟨.skip, .keep⟩ = .ok _ := Plan.script_skip _
  have hfiles :
      ∀ n ∈ HalfBuilt.topology.nodes, (∃ kind, n.kind = .ok kind) → IsFileName n.name := by
    have hall : ∀ n ∈ HalfBuilt.topology.nodes,
        n.name ≠ "" ∧ '/' ∉ n.name.toList ∧ n.name ≠ "." ∧ n.name ≠ ".." := by decide
    exact fun n hn _ => hall n hn
  have hremoved := (mem_removals_iff HalfBuilt.topology _ .reconf hr _ hs "/var/run/netns/R1").mpr
    ⟨HalfBuilt.router, by decide, ⟨.container, by decide +kernel⟩, by decide⟩
  obtain ⟨hinside, _⟩ := removed_inside_iff HalfBuilt.topology hvalid _ .reconf hr _ hs
  obtain ⟨n, hn, hpath, hresolved⟩ := hinside.mpr hfiles _ hremoved
  rw [resolved_directory] at hresolved
  exact ⟨hvalid, hr, _, hs, hremoved, n, hn, hpath, hresolved⟩

namespace Dotted

/-- a node called like the parent of a directory, one like a file in it, and two that share a
handle -/
def topology : Topology where
  nodes := ["..", "../R1", "R1", "./R1"].map fun name => { name := name, type := some "netns" }

end Dotted

/-- Names of nodes are not looked at further than for being set and different: one removal is of the
directory that the handles are in, one of a file next to them, and two are of the same handle. -/
theorem parent_removed : Dotted.topology.validate = .ok () ∧
    ∃ s, Dotted.topology.script {} .down = .ok s ∧
      (∀ name ∈ ["..", "../R1", "R1", "./R1"], removePath (Netns.handle name) ∈ s.commands) ∧
      resolved (Netns.handle "..") = ["/", "var", "run"] ∧
      resolved (Netns.handle "../R1") = ["/", "var", "run", "R1"] ∧
      resolved (Netns.handle "R1") = resolved (Netns.handle "./R1") := by
  have hs : Dotted.topology.script {} .down = .ok _ := rfl
  exact ⟨by decide +kernel, _, hs, by decide +kernel, by decide +kernel, by decide +kernel,
    by decide +kernel⟩

end Topology

end Netlab
