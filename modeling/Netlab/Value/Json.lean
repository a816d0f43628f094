import Netlab.Value.View

/-!
# Values as JSON text

One item or field a line, two spaces more for every level, `[]` and `{}` for what is empty.  Inside
a text only the quote, the backslash and the control characters below U+0020 are escaped.
-/

namespace Netlab.Value

/-! ## texts -/

def hexDigit (n : Nat) : Char := ("0123456789abcdef".toList)[n]?.getD '0'

def escape (c : Char) : List Char :=
  match c with
  | '"' => ['\\', '"']
  | '\\' => ['\\', '\\']
  | '\n' => ['\\', 'n']
  | '\r' => ['\\', 'r']
  | '\t' => ['\\', 't']
  | '\x08' => ['\\', 'b']
  | '\x0c' => ['\\', 'f']
  | c =>
    if c.toNat < 0x20 then
      ['\\', 'u', '0', '0', hexDigit (c.toNat / 16), hexDigit (c.toNat % 16)]
    else [c]

def quoted (s : String) : List Char := '"' :: (s.toList.flatMap escape ++ ['"'])

/-! ## values -/

/-- a line break and the indentation of the next line -/
def newline (level : Nat) : List Char := '\n' :: List.replicate (2 * level) ' '

mutual

/-- the text of a value whose first line stands at `level` -/
def pretty (level : Nat) : Value → List Char
  | null => ['n', 'u', 'l', 'l']
  | text s => quoted s
  | bare spelling => spelling.toList
  | list [] => ['[', ']']
  | list (v :: vs) =>
    '[' :: newline (level + 1) ++ pretty (level + 1) v ++ prettyItems (level + 1) vs
      ++ newline level ++ [']']
  | record [] => ['{', '}']
  | record ((name, v) :: fs) =>
    '{' :: newline (level + 1) ++ quoted name ++ [':', ' '] ++ pretty (level + 1) v
      ++ prettyFields (level + 1) fs ++ newline level ++ ['}']

/-- the items behind the first one -/
def prettyItems (level : Nat) : List Value → List Char
  | [] => []
  | v :: vs => ',' :: newline level ++ pretty level v ++ prettyItems level vs

/-- the fields behind the first one -/
def prettyFields (level : Nat) : List (String × Value) → List Char
  | [] => []
  | (name, v) :: fs =>
    ',' :: newline level ++ quoted name ++ [':', ' '] ++ pretty level v ++ prettyFields level fs

end

/-- a value as JSON text -/
def json (v : Value) : String := String.ofList (pretty 0 v)

end Netlab.Value
