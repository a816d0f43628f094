import Netlab.Yaml.Fault
import Netlab.Yaml.Fold

/-!
# Plain scalars

A scalar without quotes ends at a comment, at a colon before a gap, at a document mark, at a line
that is indented too little, and inside brackets also at a bracket or comma.
-/

namespace Netlab.Yaml

/-- what has been read of a scalar and where; `broken` tells that a line ended behind it -/
structure PlainRead where
  text : List Char
  broken : Bool
  cursor : Cursor

/-- a character that ends a plain scalar inside brackets -/
def isFlowMark (c : Char) : Bool := c == ',' || c == '[' || c == ']' || c == '\x7b' || c == '\x7d'

/-- `done` is the text so far, backwards, and `gap` what followed it -/
def plainFrom (inFlow : Bool) (indent : Nat) (p : Pos) (gap : Gap) (done : List Char) :
    List Char → Except Fault PlainRead
  | [] => .ok ⟨done.reverse, gap.broken, ⟨p, []⟩⟩
  | '\r' :: '\n' :: cs => plainFrom inFlow indent p.newline (gap.addBreak '\n') done cs
  | c :: cs =>
    let stops := (c == ':' && startsGap cs) || (inFlow && isFlowMark c)
      || (!gap.isEmpty
        && ((!inFlow && p.column < indent) || (p.column == 0 && startsMark (c :: cs)) || c == '#'))
    if isBreak c then plainFrom inFlow indent p.newline (gap.addBreak c) done cs
    else if isSpace c then
      if gap.broken && p.column < indent && c == '\t' then .error .tabIndentation
      else plainFrom inFlow indent (p.next c) (gap.addSpace c) done cs
    else if stops then .ok ⟨done.reverse, gap.broken, ⟨p, c :: cs⟩⟩
    else if inFlow && c == ':' && cs.head?.any (fun d => isFlowMark d || d == '?') then
      .error .unexpectedColon
    else plainFrom inFlow indent (p.next c) {} (c :: (gap.text.reverse ++ done)) cs

/-- a plain scalar that starts at the cursor, its further lines indented by `indent` at least -/
def readPlain (inFlow : Bool) (indent : Nat) (c : Cursor) : Except Fault PlainRead :=
  plainFrom inFlow indent c.pos {} [] c.rest

end Netlab.Yaml
