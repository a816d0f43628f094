import Mathlib.Data.List.Basic
import Netlab.Node.Lifecycle

/-!
# What the creation of a node tells of it

A container is started by one flat list of words, in which option words and the texts of a
topology file stand side by side.  `Launch.read` reads such a list back: the fixed options, then
pairs of an option word and a value, then the image.  As it takes the words by their places, no text
of the file can be taken for an option.

* `readPairs_optionWords`      the pairs of one option, in front of any others;
* `Launch.read_runWords`       the whole list;
* `Node.creation_read_back`    what is created tells the node, and when nothing is created.
-/

namespace Netlab

open Shell (Command)

/-! ## pairs of an option word and a value -/

/-- pairs of an option word and its value, up to a last word on its own -/
def readPairs : List String → Option (List (String × String) × String)
  | [] => none
  | [last] => some ([], last)
  | option :: value :: rest =>
    (readPairs rest).map fun (pairs, last) => ((option, value) :: pairs, last)

/-- the values that an option is given, in order -/
def optionValues (option : String) (pairs : List (String × String)) : List String :=
  pairs.filterMap fun (word, value) => if word = option then some value else none

theorem optionValues_append (option : String) (a b : List (String × String)) :
    optionValues option (a ++ b) = optionValues option a ++ optionValues option b :=
  List.filterMap_append

theorem optionValues_self (option : String) (values : List String) :
    optionValues option (values.map (option, ·)) = values := by
  simp [optionValues, List.filterMap_map]

theorem optionValues_other (option word : String) (values : List String) (h : word ≠ option) :
    optionValues option (values.map (word, ·)) = [] := by
  simp [optionValues, h]

theorem readPairs_optionWords (option : String) (values rest : List String) :
    readPairs (optionWords option values ++ rest)
      = (readPairs rest).map fun (pairs, last) => (values.map (option, ·) ++ pairs, last) := by
  induction values with
  | nil => exact Option.map_id'.symm
  | cons value values ih =>
    show (readPairs (optionWords option values ++ rest)).map _ = _
    rw [ih, Option.map_map]
    rfl

/-! ## the start of a container -/

/-- what the words that start a container tell -/
structure Launch where
  hostname : String
  network : String
  name : String
  sysctls : List String
  mounts : List String
  image : String
deriving DecidableEq

namespace Launch

/-- the fixed options, the settings and the image; no other option may be among the settings -/
def read : List String → Option Launch
  | "docker" :: "run" :: "-td" :: "--hostname" :: hostname :: "--net" :: network ::
      "--name" :: name :: "--rm" :: "--privileged" :: rest => do
    let (pairs, image) ← readPairs rest
    guard (pairs.all fun (option, _) => option = "--sysctl" ∨ option = "-v")
    return ⟨hostname, network, name, optionValues "--sysctl" pairs, optionValues "-v" pairs, image⟩
  | _ => none

theorem read_runWords (n : Node) (image : String) :
    read (n.runWords image) = some ⟨n.name, n.network, n.name, n.sysctls, n.mounts, image⟩ := by
  have hpairs :
      readPairs (optionWords "--sysctl" n.sysctls ++ (optionWords "-v" n.mounts ++ [image]))
        = some (n.sysctls.map ("--sysctl", ·) ++ n.mounts.map ("-v", ·), image) := by
    rw [readPairs_optionWords, readPairs_optionWords]
    simp [readPairs]
  have hsysctls : optionValues "--sysctl" (n.sysctls.map ("--sysctl", ·) ++ n.mounts.map ("-v", ·))
      = n.sysctls := by
    rw [optionValues_append, optionValues_self, optionValues_other _ _ _ (by decide),
      List.append_nil]
  have hmounts : optionValues "-v" (n.sysctls.map ("--sysctl", ·) ++ n.mounts.map ("-v", ·))
      = n.mounts := by
    rw [optionValues_append, optionValues_self, optionValues_other _ _ _ (by decide),
      List.nil_append]
  rw [Node.runWords, List.append_assoc, List.append_assoc]
  show (readPairs (optionWords "--sysctl" n.sysctls ++ (optionWords "-v" n.mounts ++ [image])) >>= _)
    = _
  rw [hpairs]
  simp [hsysctls, hmounts, guard]

end Launch

/-! ## creation -/

namespace Node

theorem image?_eq_some_iff (n : Node) (image : String) :
    n.image? = some image ↔ n.image = some image ∧ image ≠ "" := by
  rw [image?, Option.filter_eq_some_iff, decide_eq_true_iff]

theorem image?_eq_none_iff (n : Node) : n.image? = none ↔ n.image = none ∨ n.image = some "" := by
  rw [image?]
  cases n.image with
  | none => simp
  | some image => simp

/-- a network that is not set or empty is that of no network -/
theorem network_cases (n : Node) :
    n.netBase = some n.network ∧ n.network ≠ "" ∨
      (n.netBase = none ∨ n.netBase = some "") ∧ n.network = "none" := by
  rw [network]
  cases n.netBase with
  | none => exact Or.inr ⟨Or.inl rfl, rfl⟩
  | some network =>
    by_cases h : network = ""
    · subst h
      exact Or.inr ⟨Or.inr rfl, rfl⟩
    · have hset : (some network).filter (· ≠ "") = some network := by
        simp [Option.filter_some, h]
      rw [hset]
      exact Or.inl ⟨rfl, h⟩

theorem create_eq_error_iff (n : Node) (kind : NodeKind) (e : CompileError) :
    n.create kind = .error e ↔
      kind = .container ∧ (n.image = none ∨ n.image = some "") ∧ e = .missingImage n.name := by
  rw [← image?_eq_none_iff]
  cases kind with
  | netns => exact ⟨nofun, fun h => nomatch h.1⟩
  | container =>
    rw [create, and_iff_right rfl]
    cases n.image? with
    | none => simp [eq_comm]
    | some image => simp

theorem create_container_eq_ok_iff (n : Node) (cmds : List Command) :
    n.create .container = .ok cmds ↔
      ∃ image, n.image = some image ∧ image ≠ "" ∧ cmds = [.argv (n.runWords image)] := by
  simp only [← and_assoc, ← image?_eq_some_iff]
  rw [create]
  cases n.image? with
  | none => simp
  | some image => simp [eq_comm]

/-- containers that are started alike are alike in all that creation goes by -/
theorem eq_of_create_container_eq (n m : Node) (cmds : List Command)
    (hn : n.create .container = .ok cmds) (hm : m.create .container = .ok cmds) :
    n.name = m.name ∧ n.network = m.network ∧ n.sysctls = m.sysctls ∧ n.mounts = m.mounts ∧
      n.image = m.image := by
  obtain ⟨image, himage, _, hwords⟩ := (n.create_container_eq_ok_iff cmds).mp hn
  obtain ⟨image', himage', _, hwords'⟩ := (m.create_container_eq_ok_iff cmds).mp hm
  have hsame : n.runWords image = m.runWords image' := by
    rw [hwords] at hwords'
    exact Command.argv.inj (List.cons.inj hwords').1
  have hread := congrArg Launch.read hsame
  rw [Launch.read_runWords, Launch.read_runWords, Option.some.injEq, Launch.mk.injEq] at hread
  obtain ⟨_, hnetwork, hname, hsysctls, hmounts, rfl⟩ := hread
  exact ⟨hname, hnetwork, hsysctls, hmounts, himage.trans himage'.symm⟩

/-- **Creation tells the node.**  It fails exactly for a container whose image is not set or empty,
and names the node then.  A container is started by one program call, from which the name of the
node, its network, all its kernel parameters and mounts and its image are read back, whatever texts
they are.  A namespace is added, given each kernel parameter in order, and its loopback device is
brought up at last.  So containers that are created alike are alike in all of it. -/
theorem creation_read_back (n : Node) :
    (∀ kind e, n.create kind = .error e ↔
      kind = .container ∧ (n.image = none ∨ n.image = some "") ∧ e = .missingImage n.name) ∧
    (∀ cmds, n.create .container = .ok cmds → ∃ words network image, cmds = [.argv words] ∧
      Launch.read words = some ⟨n.name, network, n.name, n.sysctls, n.mounts, image⟩ ∧
      (n.netBase = some network ∧ network ≠ "" ∨
        (n.netBase = none ∨ n.netBase = some "") ∧ network = "none") ∧
      n.image = some image ∧ image ≠ "") ∧
    n.create .netns = .ok (.argv ["ip", "netns", "add", n.name] ::
      n.sysctls.map (fun sysctl => .argv ["ip", "netns", "exec", n.name, "sysctl", "-w", sysctl]) ++
      [.argv ["ip", "netns", "exec", n.name, "ip", "link", "set", "lo", "up"]]) ∧
    ∀ (m : Node) cmds, n.create .container = .ok cmds → m.create .container = .ok cmds →
      n.name = m.name ∧ n.network = m.network ∧ n.sysctls = m.sysctls ∧ n.mounts = m.mounts ∧
        n.image = m.image := by
  refine ⟨n.create_eq_error_iff, fun cmds h => ?_, rfl, n.eq_of_create_container_eq⟩
  obtain ⟨image, himage, hset, rfl⟩ := (n.create_container_eq_ok_iff cmds).mp h
  exact ⟨_, n.network, image, rfl, Launch.read_runWords n image, n.network_cases, himage, hset⟩

namespace Lookalike

/-- a container whose values look like options or are empty -/
def node : Node where
  name := "--rm"
  netBase := some ""
  image := some "-v"
  sysctls := ["-v", "", "--sysctl"]
  mounts := ["--sysctl", "-v", "-v"]

/-- the same container, set up in another way -/
def twin : Node := { node with type := some "docker", netBase := some "none", interfaces := [{}] }

end Lookalike

theorem creation_read_back_lookalike :
    Lookalike.node.create .container = .ok [.argv (Lookalike.node.runWords "-v")] ∧
    Lookalike.twin.create .container = .ok [.argv (Lookalike.node.runWords "-v")] ∧
    Launch.read (Lookalike.node.runWords "-v")
      = some ⟨"--rm", "none", "--rm", ["-v", "", "--sysctl"], ["--sysctl", "-v", "-v"], "-v"⟩ ∧
    Lookalike.node.network = Lookalike.twin.network := by
  have hnode : Lookalike.node.create .container = .ok [.argv (Lookalike.node.runWords "-v")] := rfl
  have htwin : Lookalike.twin.create .container = .ok [.argv (Lookalike.node.runWords "-v")] := rfl
  obtain ⟨_, hcontainer, _, hequal⟩ := creation_read_back Lookalike.node
  obtain ⟨words, network, image, hwords, hread, hnetwork, himage, _⟩ := hcontainer _ hnode
  obtain ⟨_, htwins, _⟩ := hequal Lookalike.twin _ hnode htwin
  refine ⟨hnode, htwin, ?_, htwins⟩
  obtain rfl := Command.argv.inj (List.cons.inj hwords).1
  obtain rfl := Option.some.inj himage
  obtain ⟨hbase, hset⟩ | ⟨_, rfl⟩ := hnetwork
  · exact absurd (Option.some.inj hbase).symm hset
  · exact hread

end Node

end Netlab
