/-!
# Characters and positions of a YAML text
-/

namespace Netlab.Yaml

/-! ## characters -/

/-- the characters that a text may hold -/
def isAllowed (c : Char) : Bool :=
  let n := c.toNat
  n == 0x9 || n == 0xA || n == 0xD || (0x20 ≤ n && n ≤ 0x7E) || n == 0x85
    || (0xA0 ≤ n && n ≤ 0xD7FF) || (0xE000 ≤ n && n ≤ 0xFFFD) || 0x10000 ≤ n

def isBreak (c : Char) : Bool :=
  c == '\n' || c == '\r' || c == '\u0085' || c == '\u2028' || c == '\u2029'

def isSpace (c : Char) : Bool := c == ' ' || c == '\t'

def isGap (c : Char) : Bool := isSpace c || isBreak c

/-- the characters of anchor names, tag handles and directive names -/
def isWordChar (c : Char) : Bool := c.isAlphanum || c == '-' || c == '_'

/-- whether a text ends, or goes on with a space or a line break -/
def startsGap : List Char → Bool
  | [] => true
  | c :: _ => isGap c

/-- what a line break stands for in a scalar: the line and the paragraph separator stay, any other
break is a line feed -/
def breakChar (c : Char) : Char := if c == '\u2028' || c == '\u2029' then c else '\n'

/-- whether a line starts with one of the two marks between documents -/
def startsMark : List Char → Bool
  | '-' :: '-' :: '-' :: cs => startsGap cs
  | '.' :: '.' :: '.' :: cs => startsGap cs
  | _ => false

/-! ## positions -/

structure Pos where
  line : Nat := 0
  /-- the characters in front on the line -/
  column : Nat := 0
  /-- the bytes in front on the line -/
  bytes : Nat := 0

/-- behind one more character of the line -/
def Pos.next (p : Pos) (c : Char) : Pos :=
  { p with column := p.column + 1, bytes := p.bytes + c.utf8Size }

/-- behind `n` more characters of the line, each of one byte -/
def Pos.skip (p : Pos) (n : Nat) : Pos := { p with column := p.column + n, bytes := p.bytes + n }

/-- behind a line break -/
def Pos.newline (p : Pos) : Pos := { line := p.line + 1 }

/-- a position and the text behind it -/
structure Cursor where
  pos : Pos
  rest : List Char

namespace Cursor

/-- over `n` characters of the line, each of one byte -/
def skip (c : Cursor) (n : Nat) : Cursor := ⟨c.pos.skip n, c.rest.drop n⟩

def column (c : Cursor) : Nat := c.pos.column

/-- the characters up to the first that does not fit, and the cursor there; for characters of a
line only -/
def span (c : Cursor) (fits : Char → Bool) : List Char × Cursor :=
  let taken := c.rest.takeWhile fits
  (taken, ⟨taken.foldl Pos.next c.pos, c.rest.drop taken.length⟩)

def skipSpaces (c : Cursor) : Cursor := (c.span isSpace).2

/-- over the rest of the line, without its break -/
def skipLine (c : Cursor) : Cursor := (c.span (!isBreak ·)).2

/-- over a line break, if there is one -/
def skipBreak (c : Cursor) : Cursor :=
  match c.rest with
  | '\r' :: '\n' :: cs => ⟨c.pos.newline, cs⟩
  | b :: cs => if isBreak b then ⟨c.pos.newline, cs⟩ else c
  | [] => c

end Cursor

end Netlab.Yaml
