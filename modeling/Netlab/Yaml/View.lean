import Netlab.Value.View
import Netlab.Yaml.Document
import Netlab.Yaml.Layout

/-!
# Reading records from a YAML text

Any scalar is a text.  A plain scalar that is empty or spells null is the absence of an optional
text, and an empty one also an empty list or a record without fields.  Where a part is read, an
alias stands for what it refers to; how many aliases may be followed depends on the size of the
document, so that a short text cannot hold an enormous topology.
-/

namespace Netlab.Yaml

/-- the plain spellings of null -/
def isNull (text : String) : Bool :=
  text == "~" || text == "null" || text == "Null" || text == "NULL"

def nullTag : String := "tag:yaml.org,2002:null"

/-- a reading of a document, which knows how many aliases it may still follow -/
abbrev Reading := StateT Nat (Except Misfit)

namespace Document

/-- the node that stands for an alias, any other node itself -/
def resolve (d : Document) : Node → Reading Node
  | .alias slot => do
    match ← get with
    | 0 => throw .tooManyAliases
    | left + 1 =>
      set left
      return d.follow (.alias slot)
  | n => return n

def readText (d : Document) (n : Node) : Reading String := do
  match ← d.resolve n with
  | .scalar _ _ text => return text
  | _ => throw .notText

def readOptional (d : Document) (n : Node) : Reading (Option String) := do
  match ← d.resolve n with
  | .scalar none true text => return if text = "" || isNull text then none else some text
  | .scalar (some tag) true text =>
    if tag = nullTag then if isNull text then return none else throw .notText else return some text
  | .scalar _ false text => return some text
  | _ => throw .notText

def readItems (d : Document) (n : Node) : Reading (List Node) := do
  match ← d.resolve n with
  | .list items => return items
  | .scalar _ true "" => return []
  | _ => throw .notList

/-- the field names of a record have to be scalars -/
def readFields (d : Document) (n : Node) : Reading (List (String × Node)) := do
  match ← d.resolve n with
  | .map entries => entries.mapM fun (key, value) => return (← d.readText key, value)
  | .scalar _ true "" => return []
  | _ => throw .notRecord

def view (d : Document) : View Reading Node where
  text := d.readText
  optional := d.readOptional
  items := d.readItems
  fields _ := d.readFields

/-- what is read from a document when a hundred aliases may be followed for each of its events -/
def run {α : Type} (d : Document) (r : Reading α) : Except Misfit α := r.run' (100 * d.root.events)

end Document

/-- the document of a text -/
def document (text : String) : Except Fault Document := do Document.ofTokens (← tokens text)

end Netlab.Yaml
