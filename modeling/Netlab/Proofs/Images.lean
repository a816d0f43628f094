import Netlab.Proofs.Creation
import Netlab.Proofs.Distinct
import Netlab.Proofs.Phases

/-!
# Images that are fetched

The images of a topology are fetched by one command each, and the containers are started from
images.  Both go by the nodes, in two places of the program; the two agree on what an image is.

* `Topology.mem_images_iff`        which images are fetched;
* `Topology.pairwise_images`       in which order;
* `Topology.image_of_started`      a container that is started has one of them;
* `Topology.pull_fetches_images`   all of it, with the laws of first occurrences that it rests on.
-/

namespace Netlab

open Shell (Command)

/-- the command that fetches an image -/
def fetchImage (image : String) : Command := .argv ["docker", "pull", image]

namespace Topology

section
variable (t : Topology)

/-- the images that the nodes of a topology declare, each once -/
def images : List String := distinct (t.nodes.filterMap Node.image?)

theorem pull_eq : t.pull = t.images.map fetchImage := rfl

theorem nodup_images : t.images.Nodup := nodup_distinct _

theorem mem_images_iff (image : String) :
    image ∈ t.images ↔ image ≠ "" ∧ ∃ n ∈ t.nodes, n.image = some image := by
  rw [images, mem_distinct, List.mem_filterMap]
  simp only [Node.image?_eq_some_iff]
  constructor
  · rintro ⟨n, hn, himage, hset⟩
    exact ⟨hset, n, hn, himage⟩
  · rintro ⟨hset, n, hn, himage⟩
    exact ⟨n, hn, himage, hset⟩

/-- the place of the first node that declares an image -/
def firstUse (image : String) : Nat := t.nodes.findIdx (·.image = some image)

theorem firstUse_eq (image : String) (hset : image ≠ "") :
    t.firstUse image = t.nodes.findIdx (·.image? = some image) := by
  simp only [firstUse, Node.image?_eq_some_iff, hset, ne_eq, not_false_eq_true, and_true]

theorem pairwise_images : t.images.Pairwise fun a b => t.firstUse a < t.firstUse b := by
  refine (pairwise_distinct_filterMap Node.image? t.nodes).imp_of_mem fun {a b} ha hb hab => ?_
  rw [t.firstUse_eq a ((t.mem_images_iff a).mp ha).1,
    t.firstUse_eq b ((t.mem_images_iff b).mp hb).1]
  exact hab

/-- the image of a container that the nodes are created with is among those fetched -/
theorem image_of_started (words : List String)
    (h : .argv ("docker" :: "run" :: words) ∈ t.createNodes.commands) :
    ∃ launch, Launch.read ("docker" :: "run" :: words) = some launch ∧ launch.image ∈ t.images := by
  obtain ⟨cmds, hr, hc⟩ := (Trace.mem_commands _ _).mp h
  obtain ⟨n, hn, kind, _, hcreate⟩ := (t.emit_mem_createNodes cmds).mp hr
  cases kind with
  | container =>
    obtain ⟨image, himage, hset, rfl⟩ := (n.create_container_eq_ok_iff cmds).mp hcreate
    rw [Command.argv.inj (List.mem_singleton.mp hc), Launch.read_runWords]
    exact ⟨_, rfl, (t.mem_images_iff image).mpr ⟨hset, n, hn, himage⟩⟩
  | netns =>
    obtain rfl := Except.ok.inj hcreate
    -- all commands of a namespace are of another program
    simp [Netns.add, Netns.setSysctl, Netns.linkUp, Netns.run] at hc

/-- **What is fetched.**  Each non-empty image that a node declares is fetched by one command, in
the order of the first nodes that declare them, and nothing else is.  The nodes that can be created,
the others left out, are started from images that are fetched.  What keeps the images apart keeps of
any list exactly the first occurrences: a second time nothing changes, and of a list put behind
another those items are added that the other does not hold. -/
theorem pull_fetches_images :
    (∃ images : List String, t.pull = images.map fetchImage ∧ images.Nodup ∧
      (∀ image, image ∈ images ↔ image ≠ "" ∧ ∃ n ∈ t.nodes, n.image = some image) ∧
      images.Pairwise (fun a b =>
        t.nodes.findIdx (·.image = some a) < t.nodes.findIdx (·.image = some b)) ∧
      ∀ ds, ∃ cmds ds', t.createNodes.run .skip ds = (.ok cmds, ds') ∧
        ∀ words, .argv ("docker" :: "run" :: words) ∈ cmds →
          ∃ launch, Launch.read ("docker" :: "run" :: words) = some launch ∧
            launch.image ∈ images) ∧
    ∀ (α : Type) [DecidableEq α] (xs ys : List α),
      distinct (distinct xs) = distinct xs ∧
      distinct xs = firstOccurrences xs ∧
      distinct (xs ++ ys) = distinct xs ++ (distinct ys).filter (· ∉ xs) := by
  constructor
  · refine ⟨t.images, t.pull_eq, t.nodup_images, t.mem_images_iff, t.pairwise_images, fun ds => ?_⟩
    exact ⟨_, _, Trace.run_skip t.createNodes ds, t.image_of_started⟩
  · exact fun α _ xs ys =>
      ⟨distinct_distinct xs, distinct_eq_firstOccurrences xs, distinct_append xs ys⟩

end

namespace SharedImage

/-- nodes that share an image, one that cannot be created, one whose image is empty and one that
needs none -/
def topology : Topology where
  nodes :=
    [ { name := "R1", image := some "frr" },
      { name := "V1", type := some "vm", image := some "kernel" },
      { name := "R2", image := some "ubuntu", mounts := ["-v"] },
      { name := "R3", image := some "frr" },
      { name := "R4", image := some "" },
      { name := "C1", type := some "netns" } ]

/-- the start of the third node, behind its program and subcommand -/
def words : List String :=
  ["-td", "--hostname", "R2", "--net", "none", "--name", "R2", "--rm", "--privileged", "-v", "-v",
    "ubuntu"]

end SharedImage

theorem pull_fetches_images_shared :
    SharedImage.topology.pull = ["frr", "kernel", "ubuntu"].map fetchImage ∧
    ∃ (images : List String) (cmds : List Command) (ds' : Diagnostics),
      SharedImage.topology.pull = images.map fetchImage ∧
      SharedImage.topology.createNodes.run .skip {} = (.ok cmds, ds') ∧
      .argv ("docker" :: "run" :: SharedImage.words) ∈ cmds ∧
      ∃ launch, Launch.read ("docker" :: "run" :: SharedImage.words) = some launch ∧
        launch.image ∈ images := by
  obtain ⟨⟨images, hpull, _, _, _, hstarted⟩, _⟩ := pull_fetches_images SharedImage.topology
  obtain ⟨cmds, ds', hrun, hall⟩ := hstarted {}
  have hcommands : cmds = SharedImage.topology.createNodes.commands :=
    Trace.eq_commands_of_run_eq_ok _ _ _ _ _ hrun
  have hmem : .argv ("docker" :: "run" :: SharedImage.words) ∈ cmds := by
    rw [hcommands]
    decide +kernel
  exact ⟨by decide +kernel, images, cmds, ds', hpull, hrun, hmem, hall _ hmem⟩

end Topology

end Netlab
