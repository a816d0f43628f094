import Netlab.Yaml.Text

/-!
# Folded gaps

Inside a plain or quoted scalar that goes over several lines, a gap of spaces and line breaks stands
for less: a gap within a line stays as it is, one line break becomes a space, and of several line
breaks the first is dropped.
-/

namespace Netlab.Yaml

/-- the spaces and line breaks between two parts of a scalar -/
structure Gap where
  /-- spaces before the first break -/
  spaces : List Char := []
  /-- whether a line ended -/
  broken : Bool := false
  /-- the first break, unless it was escaped -/
  first : Option Char := none
  more : List Char := []

namespace Gap

def isEmpty (g : Gap) : Bool := g.spaces.isEmpty && !g.broken

/-- spaces at the start of a line do not count -/
def addSpace (g : Gap) (c : Char) : Gap :=
  if g.broken then g else { g with spaces := g.spaces ++ [c] }

def addBreak (g : Gap) (c : Char) : Gap :=
  if g.broken then { g with more := g.more ++ [breakChar c] }
  else { broken := true, first := some (breakChar c) }

/-- the gap that an escaped line break starts -/
def escaped : Gap := { broken := true }

/-- what the gap stands for -/
def text (g : Gap) : List Char :=
  if g.broken then
    match g.first with
    | some '\n' => if g.more.isEmpty then [' '] else g.more
    | first => first.toList ++ g.more
  else g.spaces

end Gap

end Netlab.Yaml
