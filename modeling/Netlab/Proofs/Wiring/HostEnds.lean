import Netlab.Proofs.Wiring.Account

/-!
# Host ends never collide

A bridge link is a pair with one end in the node and one on the host, and host ends of all nodes
share one space of names.  The wiring remembers every name that it took, so no two pairs take one
name, whatever the nodes and switches are called.

* `Topology.Wires.nodup_hostEnds`   one step takes no name twice;
* `Topology.nodup_hostEndsMade`     so the names made by a run are all different;
* `Topology.attached_fst_wireSites` and every host end made is attached to a bridge, once;
* `Topology.exists_opens`           a pair stands at the head of the block of its own link;
* `Topology.host_ends_apart`        the property.
-/

namespace Netlab

open Shell (Command)

/-! ## commands that attach devices -/

/-- the device that a command attaches to a bridge, and the bridge -/
def Shell.Command.attaches? : Command → Option (String × String)
  | .argv ["ip", "link", "set", "dev", d, "master", b] => some (d, b)
  | _ => none

/-- the devices that commands attach to bridges, in order, each with its bridge -/
def attached (cmds : List Command) : List (String × String) := cmds.filterMap Command.attaches?

/-- the block of a bridge link attaches its host end, and no other block attaches a device -/
theorem attached_commands (l : Link) (n : String) (kind : NodeKind) (i : String)
    (addr : Option String) (handles : HandlePolicy) :
    attached (l.commands n kind i addr handles) = match l with
      | .bridge switch => [(Link.hostEnd switch n, switch)]
      | _ => [] := by
  have hroutine : ∀ c, l.Routine n i c → c.attaches? = none := by
    rintro _ ⟨⟩
    · rfl
    · rfl
    · rw [Command.attaches?]
      rintro d b ⟨⟩
    · rfl
    · rfl
  rw [attached, l.filterMap_commands_pair n kind i addr handles _ hroutine fun _ => rfl]
  cases l <;> rfl

theorem hostEndsMade_pair (n i p : String) (before after : List Command) :
    hostEndsMade (before ++ Link.hostPair n i p :: after)
      = hostEndsMade before ++ p :: hostEndsMade after :=
  List.filterMap_append

/-- the one pair of a bridge link is the first command of its block -/
theorem hostPair_first (switch n i : String) (kind : NodeKind) (addr : Option String)
    (handles : HandlePolicy) (before after : List Command) (n' i' p : String)
    (h : (Link.bridge switch).commands n kind i addr handles
      = before ++ Link.hostPair n' i' p :: after) :
    before = [] ∧ n' = n ∧ i' = i ∧ p = Link.hostEnd switch n := by
  have hends := congrArg hostEndsMade h
  rw [hostEndsMade_commands, hostEndsMade_pair] at hends
  cases before with
  | nil =>
    have hpair := (List.cons.inj h).1
    simp only [Link.hostPair, Command.argv.injEq, List.cons.injEq, true_and, and_true] at hpair
    exact ⟨rfl, hpair.2.1.symm, hpair.1.symm, hpair.2.2.symm⟩
  | cons c cs =>
    -- the first command would be a second pair
    obtain rfl := (List.cons.inj h).1
    exact absurd (congrArg List.length hends) (by simp [hostEndsMade, Command.hostEnd?])

/-- The commands `cmds` begin with the block of the interface at a site: that of a bridge link which
the node `n` has by its interface `i`, with the host end `p`. -/
def Site.Opens (handles : HandlePolicy) (n i p : String) (cmds : List Command) : Site → Prop
  | .lost _ => False
  | .live m kind j => ∃ switch, Link.parse m.name j = .ok (.bridge switch) ∧ m.name = n
      ∧ j.name = i ∧ p = Link.hostEnd switch n
      ∧ (Link.bridge switch).commands m.name kind j.name j.addr handles <+: cmds

theorem Site.Opens.mono {s : Site} {handles : HandlePolicy} {n i p : String} {cmds : List Command}
    (h : s.Opens handles n i p cmds) (more : List Command) :
    s.Opens handles n i p (cmds ++ more) := by
  cases s with
  | lost e => exact h.elim
  | live m kind j =>
    obtain ⟨switch, hlink, hn, hi, hp, hblock⟩ := h
    exact ⟨switch, hlink, hn, hi, hp, hblock.trans (List.prefix_append _ _)⟩

namespace Topology

/-! ## one step -/

section
variable {t : Topology} {handles : HandlePolicy} {w w' : Wired} {s : Site} {trace : Trace}

/-- a step takes no name twice -/
theorem Wires.nodup_hostEnds (hstep : t.Wires handles w s trace w') (hw : w.hostEnds.Nodup) :
    w'.hostEnds.Nodup := by
  cases hstep with
  | lost | unreadable | repeated | stranded | taken => exact hw
  | made n kind i l hlink hfree =>
    cases l with
    | bridge switch => exact List.nodup_cons.mpr ⟨hfree, hw⟩
    | direct | veth | phys => exact hw

/-- what a step attaches are the host ends that it makes -/
theorem Wires.attached_fst (hstep : t.Wires handles w s trace w') :
    (attached trace.commands).map (·.1) = hostEndsMade trace.commands := by
  cases hstep with
  | lost | unreadable | stranded | taken => rfl
  | repeated n kind i peer peerInterface hlink hkey =>
    rw [Trace.commands_warned_once, attached, Link.filterMap_address _ _ _ _ fun _ => rfl,
      hostEndsMade, Link.filterMap_address _ _ _ _ fun _ => rfl]
    rfl
  | made n kind i l hlink hfree =>
    rw [Trace.commands_warned, attached_commands, hostEndsMade_commands]
    cases l <;> rfl

/-- a pair that a step makes stands at the head of the block of its link -/
theorem Wires.opens (hstep : t.Wires handles w s trace w') (before after : List Command)
    (n i p : String) (h : trace.commands = before ++ Link.hostPair n i p :: after) :
    s.Opens handles n i p (Link.hostPair n i p :: after) := by
  have hends := congrArg hostEndsMade h
  rw [hostEndsMade_pair] at hends
  have hmakes : hostEndsMade trace.commands ≠ [] := by
    rw [hends]
    exact List.append_ne_nil_of_right_ne_nil _ (List.cons_ne_nil _ _)
  cases hstep with
  | lost | unreadable | stranded | taken => exact absurd rfl hmakes
  | repeated m kind j peer peerInterface hlink hkey =>
    rw [Trace.commands_warned_once] at hmakes
    exact absurd (Link.filterMap_address _ _ _ _ fun _ => rfl) hmakes
  | made m kind j l hlink hfree =>
    rw [Trace.commands_warned] at h hmakes
    cases l with
    | bridge switch =>
      obtain ⟨rfl, rfl, rfl, hp⟩ := hostPair_first _ _ _ _ _ _ _ _ _ _ _ h
      exact ⟨switch, hlink, rfl, rfl, hp, by rw [h, List.nil_append]⟩
    | direct | veth | phys =>
      rw [hostEndsMade_commands] at hmakes
      exact absurd rfl hmakes

end

/-! ## a run -/

section
variable (t : Topology) (handles : HandlePolicy)

/-- the host ends made are those that are there at the end -/
theorem hostEndsMade_wireLinks :
    hostEndsMade (t.wireLinks handles).commands
      = (t.wiredAfter handles {} t.sites).hostEnds.reverse :=
  (t.gained_wiredAfter handles (·.hostEnds.reverse) Command.hostEnd?
    (fun _ _ _ _ hstep => hstep.host_ends_made) {} t.sites).symm

theorem nodup_hostEndsMade : (hostEndsMade (t.wireLinks handles).commands).Nodup := by
  rw [hostEndsMade_wireLinks, List.nodup_reverse]
  exact t.wiredAfter_induction handles (·.hostEnds.Nodup) t.sites
    (fun w hw s _ => (t.wires_wireSite handles w s).nodup_hostEnds hw) {} List.nodup_nil

theorem attached_fst_wireSites (w : Wired) (ss : List Site) :
    (attached (Trace.commands (t.wireSites handles w ss))).map (·.1)
      = hostEndsMade (Trace.commands (t.wireSites handles w ss)) := by
  induction ss generalizing w with
  | nil => rfl
  | cons s ss ih =>
    rw [wireSites_cons, Trace.commands_append, attached, List.filterMap_append, List.map_append,
      hostEndsMade, List.filterMap_append]
    exact congrArg₂ (· ++ ·) (t.wires_wireSite handles w s).attached_fst (ih _)

/-- a pair that a run makes stands at the head of the block of its link -/
theorem exists_opens (w : Wired) (ss : List Site) (before after : List Command) (n i p : String)
    (h : Trace.commands (t.wireSites handles w ss) = before ++ Link.hostPair n i p :: after) :
    ∃ s ∈ ss, s.Opens handles n i p (Link.hostPair n i p :: after) := by
  induction ss generalizing w before with
  | nil => exact absurd h.symm (List.append_ne_nil_of_right_ne_nil _ (List.cons_ne_nil _ _))
  | cons s ss ih =>
    have hlater (before : List Command) (h : Trace.commands (t.wireSites handles
        (t.wireSite handles w s).2 ss) = before ++ Link.hostPair n i p :: after) :
        ∃ s' ∈ s :: ss, s'.Opens handles n i p (Link.hostPair n i p :: after) := by
      obtain ⟨s', hs', hopens⟩ := ih _ before h
      exact ⟨s', List.mem_cons_of_mem s hs', hopens⟩
    rw [wireSites_cons, Trace.commands_append] at h
    -- the pair is one of a later site, or one of this one
    obtain ⟨front, _, hrest⟩ | ⟨back, hstep, hback⟩ := List.append_eq_append_iff.mp h
    · exact hlater front hrest
    · cases back with
      | nil => exact hlater [] hback.symm
      | cons c back =>
        obtain ⟨rfl, rfl⟩ := List.cons.inj hback
        have hopens := (t.wires_wireSite handles w s).opens before back n i p hstep
        exact ⟨s, List.mem_cons_self .., hopens.mono _⟩

end

/-! ## all host ends -/

/-- where no key stands twice, a pair is the only one with its key -/
theorem filter_key_eq_singleton {α β : Type} [DecidableEq α] (l : List (α × β)) (x : α × β)
    (hnodup : (l.map (·.1)).Nodup) (hx : x ∈ l) : l.filter (·.1 = x.1) = [x] := by
  induction l with
  | nil => exact absurd hx List.not_mem_nil
  | cons y l ih =>
    rw [List.map_cons, List.nodup_cons] at hnodup
    obtain ⟨hy, hnodup⟩ := hnodup
    rw [List.filter_cons]
    obtain rfl | hx := List.mem_cons.mp hx
    · have hrest : l.filter (·.1 = x.1) = [] := by
        refine List.filter_eq_nil_iff.mpr fun z hz heq => hy ?_
        rw [← of_decide_eq_true heq]
        exact List.mem_map.mpr ⟨z, hz, rfl⟩
      rw [if_pos (decide_eq_true rfl), hrest]
    · have hne : y.1 ≠ x.1 := by
        intro heq
        rw [heq] at hy
        exact hy (List.mem_map.mpr ⟨x, hx, rfl⟩)
      rw [if_neg (by rwa [decide_eq_true_eq]), ih hnodup hx]

theorem count_hostLinkUp (switch n i : String) (kind : NodeKind) (addr : Option String)
    (handles : HandlePolicy) :
    ((Link.bridge switch).commands n kind i addr handles).count
      (Host.linkUp (Link.hostEnd switch n)) = 1 := by
  have haddress :
      (Link.addressCommands n i addr).count (Host.linkUp (Link.hostEnd switch n)) = 0 := by
    cases addr with
    | none => rfl
    | some x => simp [Link.addressCommands, Netns.setAddress, Netns.run, Host.linkUp]
  have hblock :
      (Link.bridgeCommands n i switch).count (Host.linkUp (Link.hostEnd switch n)) = 1 := by
    simp [Link.bridgeCommands, Netns.linkUp, Netns.run, Host.linkUp, Bridge.attach]
  exact (List.count_append ..).trans (by rw [hblock]; exact congrArg (1 + ·) haddress)

/-- **Host ends never collide.**  Whatever the options, the host ends that a wiring makes are all
different, also where two nodes share a name.  Each is made at the head of the block of its own
link, is named for the switch and the node of that link, is brought up once in that block, and is
attached to that switch behind its creation; no other command attaches it to anything. -/
theorem host_ends_apart (t : Topology) (o : CompileOptions) (ds ds' : Diagnostics)
    (cmds : List Command)
    (hrun : (t.wireLinks o.handles).run o.policy ds = (.ok cmds, ds')) :
    (hostEndsMade cmds).Nodup ∧
      ∀ before after n i p, cmds = before ++ Link.hostPair n i p :: after →
        ∃ m ∈ t.nodes, ∃ kind, m.creatable = .ok kind ∧ ∃ j ∈ m.interfaces, ∃ switch block,
          Link.parse m.name j = .ok (.bridge switch) ∧ m.name = n ∧ j.name = i ∧
          p = Link.hostEnd switch n ∧
          block = (Link.bridge switch).commands n kind i j.addr o.handles ∧
          block <+: Link.hostPair n i p :: after ∧
          block.count (Host.linkUp p) = 1 ∧
          Bridge.attach p switch ∈ after ∧
          (attached cmds).filter (·.1 = p) = [(p, switch)] := by
  obtain rfl := Trace.eq_commands_of_run_eq_ok _ o.policy ds ds' cmds hrun
  have hnodup := t.nodup_hostEndsMade o.handles
  refine ⟨hnodup, fun before after n i p hcmds => ?_⟩
  obtain ⟨s, hs, hopens⟩ := t.exists_opens o.handles {} t.sites before after n i p hcmds
  cases s with
  | lost e => exact hopens.elim
  | live m kind j =>
    obtain ⟨switch, hlink, rfl, rfl, rfl, hblock⟩ := hopens
    obtain ⟨hm, hk, hj⟩ := (t.mem_sites_live m kind j).mp hs
    have hattach : Bridge.attach (Link.hostEnd switch m.name) switch ∈ after := by
      refine (List.cons_prefix_cons.mp hblock).2.subset ?_
      exact List.mem_cons_of_mem _ (List.mem_cons_of_mem _ (List.mem_cons_self ..))
    refine ⟨m, hm, kind, hk, j, hj, switch, _, hlink, rfl, rfl, rfl, rfl, hblock,
      count_hostLinkUp .., hattach, ?_⟩
    -- the names attached are the host ends made, none of them twice
    have hkeys := t.attached_fst_wireSites o.handles {} t.sites
    rw [wireLinks] at hnodup hcmds ⊢
    refine filter_key_eq_singleton _ (Link.hostEnd switch m.name, switch) (hkeys ▸ hnodup) ?_
    rw [hcmds]
    refine List.mem_filterMap.mpr ⟨_, List.mem_append_right _ (List.mem_cons_of_mem _ hattach), ?_⟩
    rfl

namespace Shared

/-- a node that attaches to one switch twice -/
def first : Node where
  name := "R1"
  image := some "router"
  interfaces :=
    [ { name := "net0", type := "bridge", args := some "B0" },
      { name := "net1", type := "bridge", args := some "B0" } ]

/-- another node of the same name, and so of the same host ends -/
def second : Node where
  name := "R1"
  type := some "netns"
  interfaces :=
    [ { name := "net2", type := "bridge", args := some "B0" },
      { name := "net3", type := "bridge", args := some "B1", addr := some "02:00:00:00:00:01" } ]

def topology : Topology where
  nodes := [first, second]

end Shared

theorem host_ends_apart_shared : ∃ cmds ds,
    (Shared.topology.wireLinks .keep).run .skip {} = (.ok cmds, ds) ∧
      hostEndsMade cmds = ["B0-R1", "B1-R1"] ∧ (hostEndsMade cmds).Nodup ∧
      ∃ switch, "B1-R1" = Link.hostEnd switch "R1" ∧
        (attached cmds).filter (·.1 = "B1-R1") = [("B1-R1", switch)] := by
  have hrun := Trace.run_skip (Shared.topology.wireLinks .keep) {}
  obtain ⟨hnodup, hpairs⟩ := host_ends_apart Shared.topology ⟨.skip, .keep⟩ {} _ _ hrun
  have hsplit : (Shared.topology.wireLinks .keep).commands
      = (Shared.topology.wireLinks .keep).commands.take 4
        ++ Link.hostPair "R1" "net3" "B1-R1"
          :: (Shared.topology.wireLinks .keep).commands.drop 5 := by
    decide +kernel
  obtain ⟨m, _, kind, _, j, _, switch, block, _, _, _, hp, _, _, _, _, hattached⟩ :=
    hpairs _ _ _ _ _ hsplit
  exact ⟨_, _, hrun, by decide +kernel, hnodup, switch, hp, hattached⟩

end Topology

end Netlab
