import Netlab.Compile.Error
import Netlab.Netns
import Netlab.Text.Blank
import Netlab.Topology.Basic

/-!
# Creating, reaching and removing a node

A node is a container unless its type says otherwise.  A container is one `docker run`; a namespace
is added, given its kernel parameters and its loopback device.  Removing a node takes two commands
whatever the node holds.
-/

namespace Netlab

open Shell (Command)

/-! ## kinds -/

inductive NodeKind where
  | container
  | netns
deriving DecidableEq

/-- the kind that a type stands for; blank characters around the type do not count -/
def NodeKind.ofType? (type : String) : Option NodeKind :=
  match Text.trim type with
  | "" | "docker" | "container" => some .container
  | "netns" | "namespace" => some .netns
  | _ => none

def Node.kind (n : Node) : Except CompileError NodeKind :=
  let type := n.type.getD ""
  match NodeKind.ofType? type with
  | some kind => .ok kind
  | none => .error (.unsupportedNodeKind n.name (Text.trim type))

/-! ## creation -/

/-- the image of a node, if it has one -/
def Node.image? (n : Node) : Option String := n.image.filter (· ≠ "")

/-- the container network that a node starts on -/
def Node.network (n : Node) : String := (n.netBase.filter (· ≠ "")).getD "none"

/-- every value behind its own option word -/
def optionWords (option : String) (values : List String) : List String :=
  values.flatMap fun value => [option, value]

/-- the `docker run` of a node whose image is known; the image comes last -/
def Node.runWords (n : Node) (image : String) : List String :=
  ["docker", "run", "-td", "--hostname", n.name, "--net", n.network, "--name", n.name, "--rm",
    "--privileged"] ++ optionWords "--sysctl" n.sysctls ++ optionWords "-v" n.mounts ++ [image]

def Node.create (n : Node) : NodeKind → Except CompileError (List Command)
  | .container =>
    match n.image? with
    | some image => .ok [.argv (n.runWords image)]
    | none => .error (.missingImage n.name)
  | .netns =>
    .ok (Netns.add n.name :: n.sysctls.map (Netns.setSysctl n.name) ++ [Netns.linkUp n.name "lo"])

/-- The kind of a node that can be created.  A node that cannot has the same error at every later
use. -/
def Node.creatable (n : Node) : Except CompileError NodeKind := do
  let kind ← n.kind
  let _ ← n.create kind
  return kind

/-! ## use and removal -/

/-- the program call that runs a program inside a node -/
def NodeKind.lead (kind : NodeKind) (name : String) : List String :=
  match kind with
  | container => ["docker", "exec", name]
  | netns => ["ip", "netns", "exec", name]

/-- run a line of shell text inside a node -/
def NodeKind.exec (kind : NodeKind) (name line : String) : Command :=
  .within (kind.lead name) line

def NodeKind.delete (kind : NodeKind) (name : String) : List Command :=
  match kind with
  | container => [.argv ["docker", "rm", "-f", name], Netns.removeHandle name]
  | netns => [Netns.delete name, Netns.removeHandle name]

/-! ## all nodes -/

/-- of every value its first occurrence, without the later ones -/
def distinct {α : Type} [DecidableEq α] : List α → List α
  | [] => []
  | x :: xs => x :: (distinct xs).filter (fun y => decide (y ≠ x))

/-- fetch every image once, in the order of first use -/
def pullImages (nodes : List Node) : List Command :=
  (distinct (nodes.filterMap Node.image?)).map fun image => .argv ["docker", "pull", image]

/-- the columns of a container listing -/
def listingFormat : String :=
  "table \x7b\x7b.ID\x7d\x7d\\t\x7b\x7b.Names\x7d\x7d\\t\x7b\x7b.Status\x7d\x7d\\t\x7b\x7b.Networks\x7d\x7d"

/-- list the containers, stopped ones too if `all`, and the namespaces -/
def listNodes (all : Bool) : List Command :=
  [.argv (["docker", "ps", "--format", listingFormat] ++ if all then ["-a"] else []), Netns.list]

end Netlab
