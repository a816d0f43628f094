import Netlab.Yaml.Block
import Netlab.Yaml.Plain
import Netlab.Yaml.Quoted
import Netlab.Yaml.Tag

/-!
# From text to tokens

Indentation opens and closes blocks, and a text turns out to be a key only when its colon is
reached.  So the reader keeps the indentations of the open blocks and, for every open bracket, the
token that may still become a key; when the colon comes, the key mark is put in front of that token.
Such a key has to end on its line, within 1024 bytes.
-/

namespace Netlab.Yaml

/-- a token that becomes a key if a colon follows -/
structure PossibleKey where
  /-- it stands where only a key can stand -/
  required : Bool
  /-- the number of tokens in front of it -/
  token : Nat
  pos : Pos

structure Layout where
  cursor : Cursor
  tokens : Array Token := #[]
  /-- of the open blocks, the innermost first -/
  indents : List Nat := []
  keyAllowed : Bool := true
  key : Option PossibleKey := none
  /-- one for every open bracket, the innermost first -/
  outerKeys : List (Option PossibleKey) := []

namespace Layout

def inFlow (s : Layout) : Bool := !s.outerKeys.isEmpty

def column (s : Layout) : Nat := s.cursor.column

/-- the least indentation of a line that belongs to the innermost block -/
def inner (s : Layout) : Nat := s.indents.head?.elim 0 (· + 1)

def push (s : Layout) (t : Token) : Layout := { s with tokens := s.tokens.push t }

/-- the token of an indicator of `n` characters -/
def take (s : Layout) (n : Nat) (t : Token) : Layout :=
  { s with cursor := s.cursor.skip n }.push t

def allowKey (s : Layout) (allowed : Bool) : Layout := { s with keyAllowed := allowed }

/-! ## blocks -/

/-- close the blocks that are indented by more than `column` -/
def closeTo (s : Layout) (column : Nat) : Layout :=
  if s.inFlow then s
  else
    let closed := s.indents.takeWhile (column < ·)
    { s with
      indents := s.indents.drop closed.length
      tokens := s.tokens ++ closed.map fun _ => Token.closeBlock }

def closeAll (s : Layout) : Layout :=
  if s.inFlow then s
  else { s with indents := [], tokens := s.tokens ++ s.indents.map fun _ => Token.closeBlock }

/-- open a block at `column` unless one is open there, its token behind `at` tokens -/
def openBlock (s : Layout) (column position : Nat) (t : Token) : Layout :=
  if s.inFlow || s.indents.head?.any (column ≤ ·) then s
  else
    { s with
      indents := column :: s.indents
      tokens := s.tokens.insertIdxIfInBounds position t }

/-! ## possible keys -/

/-- a possible key that is too far behind is none; that is a fault if it had to be one -/
def keepKey (p : Pos) : Option PossibleKey → Except Fault (Option PossibleKey)
  | none => .ok none
  | some k =>
    if k.pos.line < p.line || k.pos.bytes + 1024 < p.bytes then
      if k.required then .error .missingColon else .ok none
    else .ok (some k)

def dropStaleKeys (s : Layout) : Except Fault Layout := do
  let key ← keepKey s.cursor.pos s.key
  let outerKeys ← s.outerKeys.mapM (keepKey s.cursor.pos)
  return { s with key, outerKeys }

def dropKey (s : Layout) : Except Fault Layout :=
  if s.key.any (·.required) then .error .missingColon else .ok { s with key := none }

/-- the next token may become a key -/
def saveKey (s : Layout) : Except Fault Layout := do
  if s.keyAllowed then
    let required := !s.inFlow && s.indents.head? = some s.column
    return { ← s.dropKey with key := some ⟨required, s.tokens.size, s.cursor.pos⟩ }
  else return s

/-! ## gaps -/

/-- Over spaces, comments and line breaks.  A tab counts as a space only where no block can start;
after a line break a key may stand again.  A byte order mark in front of a line does not count,
though it takes up a column. -/
def skipGapFrom (inFlow keyAllowed comment : Bool) (p : Pos) : List Char → Bool × Cursor
  | [] => (keyAllowed, ⟨p, []⟩)
  | '\r' :: '\n' :: cs => skipGapFrom inFlow (keyAllowed || !inFlow) false p.newline cs
  | c :: cs =>
    if isBreak c then skipGapFrom inFlow (keyAllowed || !inFlow) false p.newline cs
    else if p.column == 0 && c == '\ufeff' then skipGapFrom inFlow keyAllowed false (p.next c) cs
    else if comment || c == '#' then skipGapFrom inFlow keyAllowed true (p.next c) cs
    else if c == ' ' || (c == '\t' && (inFlow || !keyAllowed)) then
      skipGapFrom inFlow keyAllowed false (p.next c) cs
    else (keyAllowed, ⟨p, c :: cs⟩)

def skipGap (s : Layout) : Layout :=
  let (keyAllowed, cursor) := skipGapFrom s.inFlow s.keyAllowed false s.cursor.pos s.cursor.rest
  { s with keyAllowed, cursor }

/-! ## tokens -/

/-- a directive or a mark between documents -/
def atDocument (s : Layout) : Except Fault Layout := do
  return (← s.closeAll.dropKey).allowKey false

def openFlow (s : Layout) (t : Token) : Except Fault Layout := do
  let s ← s.saveKey
  return { s with key := none, outerKeys := s.key :: s.outerKeys, keyAllowed := true }.take 1 t

def closeFlow (s : Layout) (t : Token) : Except Fault Layout := do
  let s ← s.dropKey
  let s := match s.outerKeys with
    | [] => s
    | key :: outerKeys => { s with key, outerKeys }
  return (s.allowKey false).take 1 t

/-- a mark that opens a block where it stands -/
def blockMark (s : Layout) (fault : Fault) (block : Token) : Except Fault Layout :=
  if s.inFlow then .ok s
  else if s.keyAllowed then .ok (s.openBlock s.column s.tokens.size block)
  else .error fault

def readEntry (s : Layout) : Except Fault Layout := do
  let s ← s.blockMark .misplacedEntry .openBlockList
  return ((← s.dropKey).allowKey true).take 1 .entry

def readKey (s : Layout) : Except Fault Layout := do
  let s ← s.blockMark .misplacedKey .openBlockMap
  return ((← s.dropKey).allowKey (!s.inFlow)).take 1 .key

def readValue (s : Layout) : Except Fault Layout := do
  match s.key with
  | some k =>
    let tokens := s.tokens.insertIdxIfInBounds k.token .key
    let s := { s with tokens, key := none }.openBlock k.pos.column k.token .openBlockMap
    return (s.allowKey false).take 1 .value
  | none =>
    let s ← s.blockMark .misplacedValue .openBlockMap
    return (s.allowKey (!s.inFlow)).take 1 .value

/-- a token that may become a key, read by `read` -/
def readPart (s : Layout) (read : Cursor → Except Fault (Token × Cursor)) :
    Except Fault Layout := do
  let s ← s.saveKey
  let (t, cursor) ← read s.cursor
  return { s with cursor, keyAllowed := false }.push t

def readBlockScalar (s : Layout) (folded : Bool) : Except Fault Layout := do
  let s ← s.dropKey
  let (text, cursor) ← readBlock folded s.inner (s.indents.headD 0) (s.cursor.skip 1)
  return { s with cursor, keyAllowed := true }.push (.scalar false (String.ofList text))

def readPlainScalar (s : Layout) : Except Fault Layout := do
  let s ← s.saveKey
  let r ← readPlain s.inFlow s.inner s.cursor
  return { s with cursor := r.cursor, keyAllowed := r.broken }.push
    (.scalar true (String.ofList r.text))

def anchorToken (token : String → Token) (c : Cursor) : Except Fault (Token × Cursor) := do
  let (name, c) ← readAnchor (c.skip 1)
  return (token name, c)

def tagToken (inFlow : Bool) (c : Cursor) : Except Fault (Token × Cursor) := do
  let (t, c) ← readTag inFlow c
  return (.tag t, c)

def quotedToken (double : Bool) (c : Cursor) : Except Fault (Token × Cursor) := do
  let (text, c) ← readQuoted double (c.skip 1)
  return (.scalar false (String.ofList text), c)

/-- the characters that do not start a plain scalar by themselves -/
def indicators : List Char :=
  ['-', '?', ':', ',', '[', ']', '\x7b', '\x7d', '#', '&', '*', '!', '|', '>', '\'', '"', '%', '@',
    '\x60']

/-- whether a plain scalar can start with `c` in front of `cs` -/
def startsPlain (inFlow : Bool) (c : Char) (cs : List Char) : Bool :=
  if c == '-' then !cs.head?.any isSpace
  else if c == '?' || c == ':' then !inFlow && !startsGap cs
  else !isGap c && !indicators.contains c

/-- the token that starts with `c` -/
def readToken (s : Layout) (c : Char) (cs : List Char) : Except Fault Layout := do
  if s.column = 0 && c == '%' then
    let s ← s.atDocument
    let (d, cursor) ← readDirective (s.cursor.skip 1)
    return { s with cursor }.push (.directive d)
  if s.column = 0 && startsMark (c :: cs) then
    return (← s.atDocument).take 3 (if c == '-' then .documentStart else .documentEnd)
  match c with
  | '[' => s.openFlow .openFlowList
  | '\x7b' => s.openFlow .openFlowMap
  | ']' => s.closeFlow .closeFlowList
  | '\x7d' => s.closeFlow .closeFlowMap
  | ',' => return ((← s.dropKey).allowKey true).take 1 .separator
  | '*' => s.readPart (anchorToken .alias)
  | '&' => s.readPart (anchorToken .anchor)
  | '!' => s.readPart (tagToken s.inFlow)
  | '\'' => s.readPart (quotedToken false)
  | '"' => s.readPart (quotedToken true)
  | c =>
    if c == '-' && startsGap cs then s.readEntry
    else if c == '?' && (s.inFlow || startsGap cs) then s.readKey
    else if c == ':' && (s.inFlow || startsGap cs) then s.readValue
    else if c == '|' && !s.inFlow then s.readBlockScalar false
    else if c == '>' && !s.inFlow then s.readBlockScalar true
    else if startsPlain s.inFlow c cs then s.readPlainScalar
    else throw .strayCharacter

/-- All tokens from here on, in at most so many steps. -/
def readTokens : Nat → Layout → Except Fault (Array Token)
  | 0, _ => .error .strayCharacter
  | steps + 1, s => do
    let s ← s.skipGap.dropStaleKeys
    let s := s.closeTo s.column
    match s.cursor.rest with
    | [] => return (← s.closeAll.dropKey).tokens
    | c :: cs => readTokens steps (← s.readToken c cs)

end Layout

/-- The tokens of a text.  Every token takes at least one character, so there are enough steps for
all of them and the end. -/
def tokens (text : String) : Except Fault (List Token) := do
  let cs := text.toList
  if !cs.all isAllowed then throw .forbiddenCharacter
  return (← Layout.readTokens (cs.length + 1) { cursor := ⟨{}, cs⟩ }).toList

end Netlab.Yaml
