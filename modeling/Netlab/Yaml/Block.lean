import Netlab.Yaml.Fault
import Netlab.Yaml.Text

/-!
# Block scalars

A header, then lines that share an indentation, which is given in the header or taken from the
first lines.  A literal scalar keeps its line breaks, a folded one joins lines that do not start
with a space.  The header also says what becomes of the breaks at the end.
-/

namespace Netlab.Yaml

/-! ## header -/

/-- what becomes of the line breaks at the end -/
inductive Chomping where
  | strip
  /-- one stays -/
  | clip
  | keep
deriving DecidableEq

structure BlockHeader where
  chomping : Chomping := .clip
  /-- indentation below that of the enclosing block -/
  increment : Option Nat := none

def chomping? : Char → Option Chomping
  | '-' => some .strip
  | '+' => some .keep
  | _ => none

/-- the signs behind the indicator, in either order, each once -/
def blockSigns : List Char → Except Fault (BlockHeader × Nat)
  | [] => .ok ({}, 0)
  | c :: cs =>
    match chomping? c with
    | some chomping =>
      match cs with
      | d :: _ =>
        if d == '0' then .error .badBlockHeader
        else if d.isDigit then .ok (⟨chomping, some (d.toNat - '0'.toNat)⟩, 2)
        else .ok (⟨chomping, none⟩, 1)
      | [] => .ok (⟨chomping, none⟩, 1)
    | none =>
      if c == '0' then .error .badBlockHeader
      else if c.isDigit then
        let increment := some (c.toNat - '0'.toNat)
        match cs.head?.bind chomping? with
        | some chomping => .ok (⟨chomping, increment⟩, 2)
        | none => .ok (⟨.clip, increment⟩, 1)
      else .ok ({}, 0)

/-- the header of a block scalar, up to and with its line break -/
def readBlockHeader (c : Cursor) : Except Fault (BlockHeader × Cursor) := do
  let (header, n) ← blockSigns c.rest
  let c := (c.skip n).skipSpaces
  let c := if c.rest.head? = some '#' then c.skipLine else c
  match c.rest with
  | [] => return (header, c)
  | b :: _ => if isBreak b then return (header, c.skipBreak) else throw .badBlockHeader

/-! ## indentation -/

/-- the empty lines in front of a scalar whose indentation is not known: the widest indentation,
their breaks and the cursor behind them -/
def leadingBreaks (widest : Nat) (p : Pos) (breaks : List Char) :
    List Char → Except Fault (Nat × List Char × Cursor)
  | [] => .ok (max widest p.column, breaks, ⟨p, []⟩)
  | '\r' :: '\n' :: cs => leadingBreaks (max widest p.column) p.newline (breaks ++ ['\n']) cs
  | c :: cs =>
    if c == ' ' then leadingBreaks widest (p.next c) breaks cs
    else if c == '\t' then .error .tabIndentation
    else if isBreak c then
      leadingBreaks (max widest p.column) p.newline (breaks ++ [breakChar c]) cs
    else .ok (max widest p.column, breaks, ⟨p, c :: cs⟩)

/-- The indentation of the lines of a scalar, the breaks of the empty lines read so far and the
cursor behind them.  `outer` is the least indentation that the lines can have, `base` that of the
enclosing block. -/
def blockIndent (outer base : Nat) (header : BlockHeader) (c : Cursor) :
    Except Fault (Nat × List Char × Cursor) :=
  match header.increment with
  | some n => .ok (base + n, [], c)
  | none => do
    let (widest, breaks, c) ← leadingBreaks 0 c.pos [] c.rest
    return (max (max widest outer) 1, breaks, c)

/-! ## lines -/

/-- the text so far and what may have to be added to it -/
structure BlockState where
  /-- inside a line, not in front of one -/
  inLine : Bool := false
  /-- whether the last line started with a space -/
  spaced : Bool := false
  /-- the break behind the last line -/
  last : List Char := []
  /-- the breaks of the empty lines behind that -/
  empty : List Char := []
  /-- backwards -/
  done : List Char := []

namespace BlockState

/-- what the breaks in front of a line add: a break is folded between two lines that do not start
with a space -/
def lineGap (s : BlockState) (folded spaced : Bool) : List Char :=
  if folded && s.last == ['\n'] && !s.spaced && !spaced then
    if s.empty.isEmpty then [' '] else s.empty
  else s.last ++ s.empty

def finish (s : BlockState) (chomping : Chomping) : List Char :=
  s.done.reverse ++ (if chomping = .strip then [] else s.last)
    ++ (if chomping = .keep then s.empty else [])

def endLine (s : BlockState) (b : Char) : BlockState :=
  { s with inLine := false, last := [breakChar b], empty := [] }

def emptyLine (s : BlockState) (b : Char) : BlockState :=
  { s with empty := s.empty ++ [breakChar b] }

def startLine (s : BlockState) (folded : Bool) (c : Char) : BlockState :=
  { inLine := true, spaced := isSpace c,
    done := c :: ((s.lineGap folded (isSpace c)).reverse ++ s.done) }

end BlockState

def blockLinesFrom (folded : Bool) (indent : Nat) (p : Pos) (s : BlockState) :
    List Char → Except Fault (BlockState × Cursor)
  | [] => .ok (s, ⟨p, []⟩)
  | '\r' :: '\n' :: cs =>
    blockLinesFrom folded indent p.newline
      (if s.inLine then s.endLine '\n' else s.emptyLine '\n') cs
  | c :: cs =>
    if isBreak c then
      blockLinesFrom folded indent p.newline (if s.inLine then s.endLine c else s.emptyLine c) cs
    else if s.inLine then
      blockLinesFrom folded indent (p.next c) { s with done := c :: s.done } cs
    else if p.column < indent && c == ' ' then blockLinesFrom folded indent (p.next c) s cs
    else if p.column < indent && c == '\t' then .error .tabIndentation
    else if p.column == indent then
      blockLinesFrom folded indent (p.next c) (s.startLine folded c) cs
    else .ok (s, ⟨p, c :: cs⟩)

/-- a block scalar whose indicator is in front of the cursor -/
def readBlock (folded : Bool) (outer base : Nat) (c : Cursor) :
    Except Fault (List Char × Cursor) := do
  let (header, c) ← readBlockHeader c
  let (indent, breaks, c) ← blockIndent outer base header c
  let (s, c) ← blockLinesFrom folded indent c.pos { empty := breaks } c.rest
  return (s.finish header.chomping, c)

end Netlab.Yaml
