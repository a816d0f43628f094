import Netlab.Diagnostics
import Netlab.Text.Blank

/-!
# The former name of the sysctl field

A kernel parameter used to be written under the name `string`, which is still read but deprecated.
Whether a file does so is told from its lines alone: below a line with the name `sysctls`, as long
as the lines are indented further (or carry on its list), a line that starts with that name.
-/

namespace Netlab

/-! ## lines -/

namespace Text

/-- a line without the carriage return at its end -/
def withoutReturn (cs : List Char) : List Char :=
  if cs.getLast? = some '\r' then cs.dropLast else cs

/-- the lines of a text; `line` is the line read so far, backwards -/
def linesFrom (line : List Char) : List Char → List (List Char)
  | [] => if line.isEmpty then [] else [line.reverse]
  | '\n' :: cs => withoutReturn line.reverse :: linesFrom [] cs
  | c :: cs => linesFrom (c :: line) cs

/-- A line ends at a line feed, which is not part of it, and one carriage return before the line
feed is not part of it either.  What follows the last line feed is a line only if it is not empty,
and a carriage return at its end stays. -/
def lines (cs : List Char) : List (List Char) := linesFrom [] cs

end Text

open Text (trimStart lines)

/-! ## the former name -/

namespace LegacyKey

/-- the number of bytes of some characters -/
def bytes : List Char → Nat
  | [] => 0
  | c :: cs => c.utf8Size + bytes cs

/-- the text behind a leading `start`, if it is there -/
def behind? (start : List Char) (cs : List Char) : Option (List Char) :=
  if start.isPrefixOf cs then some (cs.drop start.length) else none

/-- a line without the dashes of list items in front -/
def undash : List Char → List Char
  | '-' :: ' ' :: cs => undash cs
  | cs => cs

def contains (word : List Char) : List Char → Bool
  | [] => word.isEmpty
  | c :: cs => word.isPrefixOf (c :: cs) || contains word cs

/-- `outer` is the indentation of the line with the name `sysctls` that the lines are below -/
def usedFrom (outer : Option Nat) : List (List Char) → Bool
  | [] => false
  | line :: rest =>
    let trimmed := trimStart line
    if trimmed.isEmpty || trimmed.head? = some '#' then usedFrom outer rest
    else
      let indent := bytes line - bytes trimmed
      let isItem := (behind? "- ".toList trimmed).isSome
      let outer := outer.filter fun o => o < indent || (o = indent && isItem)
      let key := undash trimmed
      match behind? "sysctls:".toList key with
      | some value => contains "string:".toList value || usedFrom (some indent) rest
      | none =>
        let entry := trimStart (key.dropWhile (· = '\x7b'))
        (outer.isSome && (behind? "string:".toList entry).isSome) || usedFrom outer rest

end LegacyKey

/-- whether a topology file uses the former name -/
def usesLegacyKey (text : String) : Bool := LegacyKey.usedFrom none (lines text.toList)

def legacyKeyLog (text : String) : Log :=
  if usesLegacyKey text then
    [⟨.warn, "Topology uses the legacy 'string:' key for sysctls. Please rename it to 'sysctl:'."⟩]
  else []

end Netlab
