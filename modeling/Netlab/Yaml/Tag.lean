import Netlab.Yaml.Fault
import Netlab.Yaml.Text

/-!
# Anchors, tags, directives and tokens

A tag is written in full between angle brackets or as a handle and a suffix; directives in front of
a document give handles their meaning.  An escape in a tag stands for one octet, and a zero octet
ends it.
-/

namespace Netlab.Yaml

/-! ## anchors -/

/-- whether an anchor may end in front of that text -/
def endsAnchor : List Char → Bool
  | [] => true
  | c :: _ => isGap c || ['?', ':', ',', ']', '\x7d', '%', '@', '\x60'].contains c

/-- the name behind the mark of an anchor or alias -/
def readAnchor (c : Cursor) : Except Fault (String × Cursor) :=
  let (name, c) := c.span isWordChar
  if name.isEmpty || !endsAnchor c.rest then .error .badAnchor else .ok (String.ofList name, c)

/-! ## tags -/

/-- the text of a tag or of the start of one; a zero octet ends it -/
def tagText (cs : List Char) : String := String.ofList (cs.takeWhile (· ≠ '\x00'))

structure Tag where
  /-- empty for a tag written in full -/
  handle : String
  suffix : String
deriving DecidableEq

def isUriChar (c : Char) : Bool :=
  isWordChar c
    || [';', '/', '?', ':', '@', '&', '=', '+', '$', '.', '!', '~', '*', '\'', '(', ')'].contains c

/-- further characters of a tag written in full -/
def isFlowUriChar (c : Char) : Bool := c == ',' || c == '[' || c == ']'

def hexOctet? (a b : Char) : Option Nat := do
  let digit (c : Char) : Option Nat :=
    if c.isDigit then some (c.toNat - '0'.toNat)
    else if 'a' ≤ c && c ≤ 'f' then some (c.toNat - 'a'.toNat + 10)
    else if 'A' ≤ c && c ≤ 'F' then some (c.toNat - 'A'.toNat + 10)
    else none
  return 16 * (← digit a) + (← digit b)

/-- the number of octets that follow the first octet of a character in UTF-8 -/
def octetsAfter? (first : Nat) : Option Nat :=
  if first < 0x80 then some 0
  else if 0xC0 ≤ first && first < 0xE0 then some 1
  else if 0xE0 ≤ first && first < 0xF0 then some 2
  else if 0xF0 ≤ first && first < 0xF8 then some 3
  else none

/-- The characters of a tag, escapes decoded to one character an octet.  `missing` counts the
escaped octets that a character still needs. -/
def uriFrom (full : Bool) (missing : Nat) (p : Pos) (done : List Char) :
    List Char → Except Fault (List Char × Cursor)
  | '%' :: a :: b :: cs =>
    match hexOctet? a b with
    | none => .error .badTag
    | some n =>
      let more := if missing = 0 then octetsAfter? n
        else if 0x80 ≤ n && n < 0xC0 then some (missing - 1) else none
      match more with
      | none => .error .badTag
      | some more => uriFrom full more (p.skip 3) (Char.ofNat n :: done) cs
  | [] => if missing = 0 then .ok (done.reverse, ⟨p, []⟩) else .error .badTag
  | c :: cs =>
    if missing ≠ 0 || c == '%' then .error .badTag
    else if isUriChar c || (full && isFlowUriChar c) then uriFrom full 0 (p.next c) (c :: done) cs
    else .ok (done.reverse, ⟨p, c :: cs⟩)

def readUri (full : Bool) (c : Cursor) : Except Fault (List Char × Cursor) :=
  uriFrom full 0 c.pos [] c.rest

/-- a handle: a mark, or two marks with a name between them; the second mark may be missing -/
def readHandle (c : Cursor) : Except Fault (List Char × Cursor) :=
  match c.rest with
  | '!' :: _ =>
    let (name, c) := (c.skip 1).span isWordChar
    if c.rest.head? = some '!' then .ok ('!' :: name ++ ['!'], c.skip 1) else .ok ('!' :: name, c)
  | _ => .error .badTag

/-- a tag that starts at the cursor -/
def readTag (inFlow : Bool) (c : Cursor) : Except Fault (Tag × Cursor) := do
  let (tag, c) ←
    if (c.rest.drop 1).head? = some '<' then do
      let (uri, c) ← readUri true (c.skip 2)
      if uri.isEmpty || c.rest.head? ≠ some '>' then throw .badTag
      pure (⟨"", tagText uri⟩, c.skip 1)
    else do
      let (handle, c) ← readHandle c
      let (uri, c) ← readUri false c
      if handle.length ≥ 2 && handle.getLast? = some '!' then
        if uri.isEmpty then throw .badTag
        pure (⟨String.ofList handle, tagText uri⟩, c)
      else
        let suffix := tagText (handle.drop 1 ++ uri)
        pure (if suffix = "" then (⟨"", "!"⟩, c) else (⟨"!", suffix⟩, c))
  if startsGap c.rest || (inFlow && c.rest.head? = some ',') then return (tag, c)
  throw .badTag

/-! ## directives -/

inductive Directive where
  | version (major minor : Nat)
  /-- the tags that start with `handle` start with `lead` -/
  | tag (handle lead : String)
deriving DecidableEq

/-- a number of at most nine digits -/
def readNumber (c : Cursor) : Except Fault (Nat × Cursor) :=
  let (digits, c) := c.span Char.isDigit
  if digits.isEmpty || 9 < digits.length then .error .badDirective
  else .ok (digits.foldl (fun n d => 10 * n + (d.toNat - '0'.toNat)) 0, c)

def readVersion (c : Cursor) : Except Fault (Directive × Cursor) := do
  let (major, c) ← readNumber c.skipSpaces
  if c.rest.head? ≠ some '.' then throw .badDirective
  let (minor, c) ← readNumber (c.skip 1)
  return (.version major minor, c)

def readTagDirective (c : Cursor) : Except Fault (Directive × Cursor) := do
  let (handle, c) ← readHandle c.skipSpaces
  if handle ≠ ['!'] && handle.getLast? ≠ some '!' then throw .badTag
  if !c.rest.head?.any isSpace then throw .badDirective
  let (lead, c) ← readUri true c.skipSpaces
  if lead.isEmpty || !startsGap c.rest then throw .badDirective
  return (.tag (String.ofList handle) (tagText lead), c)

/-- a directive whose mark is in front of the cursor, with its line -/
def readDirective (c : Cursor) : Except Fault (Directive × Cursor) := do
  let (name, c) := c.span isWordChar
  if name.isEmpty || !startsGap c.rest then throw .badDirective
  let (directive, c) ←
    match String.ofList name with
    | "YAML" => readVersion c
    | "TAG" => readTagDirective c
    | _ => throw .badDirective
  let c := c.skipSpaces
  let c := if c.rest.head? = some '#' then c.skipLine else c
  if c.rest.head?.any (!isBreak ·) then throw .badDirective
  return (directive, c.skipBreak)

/-! ## tokens -/

inductive Token where
  | directive (d : Directive)
  | documentStart
  | documentEnd
  | openBlockList
  | openBlockMap
  | closeBlock
  | openFlowList
  | closeFlowList
  | openFlowMap
  | closeFlowMap
  /-- in front of an item of a block list -/
  | entry
  /-- between two items inside brackets -/
  | separator
  | key
  | value
  | anchor (name : String)
  | alias (name : String)
  | tag (t : Tag)
  | scalar (plain : Bool) (text : String)
deriving DecidableEq

end Netlab.Yaml
