import Netlab.Yaml.Fault
import Netlab.Yaml.Fold

/-!
# Quoted scalars

Between single quotes a quote is written twice and all else once.  Between double quotes a backslash
starts an escape; before a line break it takes the break away.
-/

namespace Netlab.Yaml

/-! ## escapes -/

/-- the character that a one-letter escape stands for -/
def escapedChar? : Char → Option Char
  | '0' => some '\x00'
  | 'a' => some '\x07'
  | 'b' => some '\x08'
  | 't' => some '\t'
  | '\t' => some '\t'
  | 'n' => some '\n'
  | 'v' => some '\x0b'
  | 'f' => some '\x0c'
  | 'r' => some '\r'
  | 'e' => some '\x1b'
  | ' ' => some ' '
  | '"' => some '"'
  | '/' => some '/'
  | '\\' => some '\\'
  | 'N' => some '\u0085'
  | '_' => some '\u00a0'
  | 'L' => some '\u2028'
  | 'P' => some '\u2029'
  | _ => none

/-- the number of hex digits that follow an escape letter -/
def escapeDigits? : Char → Option Nat
  | 'x' => some 2
  | 'u' => some 4
  | 'U' => some 8
  | _ => none

def hexValue? (c : Char) : Option Nat :=
  if c.isDigit then some (c.toNat - '0'.toNat)
  else if 'a' ≤ c && c ≤ 'f' then some (c.toNat - 'a'.toNat + 10)
  else if 'A' ≤ c && c ≤ 'F' then some (c.toNat - 'A'.toNat + 10)
  else none

/-- the character of a code point, unless it is a surrogate or too large -/
def charOf? (n : Nat) : Option Char := if n.isValidChar then some (Char.ofNat n) else none

/-! ## scalars -/

/-- what comes next between double quotes -/
inductive QuoteState where
  | text
  /-- hex digits of an escape that are still missing, and the value of those before them -/
  | digits (missing value : Nat)

/-- the text between single quotes -/
def singleFrom (p : Pos) (gap : Gap) (done : List Char) :
    List Char → Except Fault (List Char × Cursor)
  | [] => .error .unclosedQuote
  | '\r' :: '\n' :: cs => singleFrom p.newline (gap.addBreak '\n') done cs
  | '\'' :: '\'' :: cs =>
    singleFrom (p.skip 2) {} ('\'' :: (gap.text.reverse ++ done)) cs
  | c :: cs =>
    if isBreak c then singleFrom p.newline (gap.addBreak c) done cs
    else if isSpace c then singleFrom (p.next c) (gap.addSpace c) done cs
    else if p.column == 0 && startsMark (c :: cs) then .error .markInQuotes
    else if c == '\'' then .ok ((gap.text.reverse ++ done).reverse, ⟨p.next c, cs⟩)
    else singleFrom (p.next c) {} (c :: (gap.text.reverse ++ done)) cs

/-- the text between double quotes -/
def doubleFrom (state : QuoteState) (p : Pos) (gap : Gap) (done : List Char) :
    List Char → Except Fault (List Char × Cursor)
  | [] => .error .unclosedQuote
  | '\r' :: '\n' :: cs =>
    match state with
    | .text => doubleFrom .text p.newline (gap.addBreak '\n') done cs
    | .digits _ _ => .error .badEscape
  | '\\' :: '\r' :: '\n' :: cs =>
    match state with
    | .text => doubleFrom .text p.newline .escaped (gap.text.reverse ++ done) cs
    | .digits _ _ => .error .badEscape
  | '\\' :: e :: cs =>
    match state with
    | .digits _ _ => .error .badEscape
    | .text =>
      let done := gap.text.reverse ++ done
      if isBreak e then doubleFrom .text p.newline .escaped done cs
      else
        match escapedChar? e, escapeDigits? e with
        | some decoded, _ => doubleFrom .text (p.skip 2) {} (decoded :: done) cs
        | none, some n => doubleFrom (.digits n 0) (p.skip 2) {} done cs
        | none, none => .error .badEscape
  | c :: cs =>
    match state with
    | .digits missing value =>
      match hexValue? c with
      | none => .error .badEscape
      | some d =>
        let value := value * 16 + d
        if missing ≤ 1 then
          match charOf? value with
          | some decoded => doubleFrom .text (p.next c) {} (decoded :: done) cs
          | none => .error .badEscape
        else doubleFrom (.digits (missing - 1) value) (p.next c) {} done cs
    | .text =>
      if isBreak c then doubleFrom .text p.newline (gap.addBreak c) done cs
      else if isSpace c then doubleFrom .text (p.next c) (gap.addSpace c) done cs
      else if p.column == 0 && startsMark (c :: cs) then .error .markInQuotes
      else if c == '"' then .ok ((gap.text.reverse ++ done).reverse, ⟨p.next c, cs⟩)
      else doubleFrom .text (p.next c) {} (c :: (gap.text.reverse ++ done)) cs

/-- a quoted scalar whose opening quote is behind the cursor -/
def readQuoted (double : Bool) (c : Cursor) : Except Fault (List Char × Cursor) :=
  if double then doubleFrom .text c.pos {} [] c.rest else singleFrom c.pos {} [] c.rest

end Netlab.Yaml
