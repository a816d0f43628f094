/-!
# YAML documents as trees

An alias is kept as a reference to the slot of its anchor, so a document is finite even where an
anchor stands inside what it names.
-/

namespace Netlab.Yaml

inductive Node where
  | scalar (tag : Option String) (plain : Bool) (text : String)
  | alias (slot : Nat)
  | list (items : List Node)
  | map (entries : List (Node × Node))
deriving Inhabited

/-- what stands where nothing is written -/
def Node.empty : Node := scalar none true ""

mutual

/-- The number of events that make up a node: one for a scalar or an alias, two for the ends of a
list or map besides those of what it holds. -/
def Node.events : Node → Nat
  | .scalar _ _ _ => 1
  | .alias _ => 1
  | .list items => 2 + Node.itemEvents items
  | .map entries => 2 + Node.entryEvents entries

def Node.itemEvents : List Node → Nat
  | [] => 0
  | n :: ns => n.events + Node.itemEvents ns

def Node.entryEvents : List (Node × Node) → Nat
  | [] => 0
  | (key, value) :: es => key.events + value.events + Node.entryEvents es

end

/-- what the anchors of a document name -/
structure Anchors where
  /-- the slot of every name that is known -/
  slots : List (String × Nat) := []
  /-- how many anchors have been met -/
  met : Nat := 0
  /-- slot, number of the anchor in the text, and node -/
  nodes : List (Nat × Nat × Node) := []

namespace Anchors

/-- An anchor is met.  Its slot is the number of names known before it; a name that is known already
gets a new slot without adding to that number. -/
def meet (a : Anchors) (name : String) : Anchors :=
  { a with
    slots := (name, a.slots.length) :: a.slots.filter (·.1 ≠ name)
    met := a.met + 1 }

def slot? (a : Anchors) (name : String) : Option Nat := a.slots.lookup name

/-- the node of the last anchor that was given the slot -/
def node? (a : Anchors) (slot : Nat) : Option Node :=
  let nodes := a.nodes.filter (·.1 = slot)
  (nodes.find? fun n => nodes.all (·.2.1 ≤ n.2.1)).map (·.2.2)

end Anchors

structure Document where
  root : Node := .empty
  anchors : Anchors := {}

namespace Document

/-- the node that an alias refers to, any other node itself -/
def follow (d : Document) : Node → Node
  | .alias slot => (d.anchors.node? slot).getD (.alias slot)
  | n => n

end Document

end Netlab.Yaml
