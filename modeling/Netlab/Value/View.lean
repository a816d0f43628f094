/-!
# Data values, and reading records

A `Value` is nested data as a document holds it: texts, lists and records.  The fields of a record
are in order, and a name may occur twice; what reads a record decides what that means.

A document says how its parts present themselves (`View`): as a text, as an optional text, as a
list, or as the fields of a record.  On top of that the readers here take one field each: a field
that is missing has its default, a name given twice is refused, and fields that nobody asks for do
not matter.  Reading may fail with a `Misfit`, and a document may keep a count of its own meanwhile.
-/

namespace Netlab

/-! ## values -/

inductive Value where
  | null
  | text (s : String)
  /-- a number or a truth value, by its spelling -/
  | bare (spelling : String)
  | list (items : List Value)
  | record (fields : List (String × Value))
deriving Inhabited

/-! ## views -/

/-- why a document does not fit the records that are read from it -/
inductive Misfit where
  | notText
  | notList
  | notRecord
  | repeated (name : String)
  | missing (name : String)
  | tooManyAliases
deriving DecidableEq

def Misfit.message : Misfit → String
  | notText => "expected a text"
  | notList => "expected a list"
  | notRecord => "expected a record"
  | repeated name => s!"repeated field '{name}'"
  | missing name => s!"missing field '{name}'"
  | tooManyAliases => "repetition limit exceeded"

/-- how the parts of a document present themselves -/
structure View (m : Type → Type) (ν : Type) where
  text : ν → m String
  /-- a text or the absence of one -/
  optional : ν → m (Option String)
  items : ν → m (List ν)
  /-- the fields of a record whose field names are known, in order -/
  fields : List String → ν → m (List (String × ν))

namespace View

variable {m : Type → Type} [Monad m] [MonadExcept Misfit m] {ν α : Type}

def list (d : View m ν) (item : ν → m α) (v : ν) : m (List α) := do (← d.items v).mapM item

/-! ## single fields -/

/-- the one field that has one of the names -/
def field? (fs : List (String × ν)) (names : List String) : m (Option ν) :=
  match fs.filter (fun f => names.contains f.1) with
  | [] => pure none
  | [(_, v)] => pure (some v)
  | (name, _) :: _ => throw (.repeated name)

/-- a field with a default -/
def fieldD (fs : List (String × ν)) (name : String) (default : α) (read : ν → m α) : m α := do
  match ← field? fs [name] with
  | none => return default
  | some v => read v

/-- a field that must be there, under one of the names -/
def required (fs : List (String × ν)) (name : String) (others : List String) (read : ν → m α) :
    m α := do
  match ← field? fs (name :: others) with
  | none => throw (.missing name)
  | some v => read v

end View

/-! ## values as documents -/

namespace Value

def readText : Value → Except Misfit String
  | text s => .ok s
  | _ => .error .notText

def readOptional : Value → Except Misfit (Option String)
  | null => .ok none
  | text s => .ok (some s)
  | _ => .error .notText

def readItems : Value → Except Misfit (List Value)
  | list vs => .ok vs
  | _ => .error .notList

/-- a record may also be written as the list of its first fields, without their names -/
def readFields (names : List String) : Value → Except Misfit (List (String × Value))
  | record fs => .ok fs
  | list vs => if vs.length ≤ names.length then .ok (names.zip vs) else .error .notRecord
  | _ => .error .notRecord

def view : View (Except Misfit) Value := ⟨readText, readOptional, readItems, readFields⟩

end Value

end Netlab
