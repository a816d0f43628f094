import Netlab.Value.View

/-!
# Values as indented blocks

A record takes one line for every field and a list one line with a dash for every item; what is
nested in a field is indented by two more spaces, except that the items of a list stand right below
the name of their field.  Texts are written as they are, so this serves for texts that read back as
themselves without quotes.
-/

namespace Netlab.Value

/-- the first line of an item starts with a dash, the others are indented below it -/
def dashed : List String → List String
  | [] => []
  | l :: ls => ("- " ++ l) :: ls.map ("  " ++ ·)

mutual

/-- the lines of a value -/
def blockLines : Value → List String
  | null => ["null"]
  | text s => [s]
  | bare spelling => [spelling]
  | list items => itemLines items
  | record fields => fieldLines fields

def itemLines : List Value → List String
  | [] => []
  | v :: vs => dashed (blockLines v) ++ itemLines vs

def fieldLines : List (String × Value) → List String
  | [] => []
  | (name, v) :: fs =>
    (match v with
      | null => [name ++ ": null"]
      | text s => [name ++ ": " ++ s]
      | bare spelling => [name ++ ": " ++ spelling]
      | list [] => [name ++ ": []"]
      | list (v :: vs) => (name ++ ":") :: itemLines (v :: vs)
      | record [] => [name ++ ": \x7b\x7d"]
      | record (f :: fs) => (name ++ ":") :: (fieldLines (f :: fs)).map ("  " ++ ·))
      ++ fieldLines fs

end

/-- a value as lines of text, each ended by a line feed -/
def block (v : Value) : String := String.join ((blockLines v).map (· ++ "\n"))

end Netlab.Value
