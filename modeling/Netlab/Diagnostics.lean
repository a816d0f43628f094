import Netlab.Compile.Error

/-!
# Diagnostics and log lines

Diagnostics are what went wrong without stopping the work: warnings, and units that were left out.
Each is kept once, where it was first recorded.
-/

namespace Netlab

inductive Severity where
  | warning
  /-- a unit was left out -/
  | skipped
deriving DecidableEq

structure Diagnostic where
  severity : Severity
  message : String
deriving DecidableEq

namespace Diagnostic

def warning (message : String) : Diagnostic := ⟨.warning, message⟩

def skipped (error : CompileError) : Diagnostic := ⟨.skipped, error.message⟩

/-- the diagnostic as one line of text -/
def text (d : Diagnostic) : String :=
  match d.severity with
  | .warning => d.message
  | .skipped => "skipped: " ++ d.message

end Diagnostic

structure Diagnostics where
  /-- in the order of recording -/
  toList : List Diagnostic := []
deriving DecidableEq

namespace Diagnostics

/-- record a diagnostic unless it is there already -/
def push (ds : Diagnostics) (d : Diagnostic) : Diagnostics :=
  if d ∈ ds.toList then ds else ⟨ds.toList ++ [d]⟩

def pushAll (ds : Diagnostics) (l : List Diagnostic) : Diagnostics := l.foldl push ds

/-- record all that `other` holds -/
def extend (ds other : Diagnostics) : Diagnostics := ds.pushAll other.toList

def warnings (ds : Diagnostics) : List Diagnostic := ds.toList.filter (·.severity = .warning)

/-- the units that were left out -/
def skippedUnits (ds : Diagnostics) : List Diagnostic := ds.toList.filter (·.severity = .skipped)

theorem push_of_mem (ds : Diagnostics) (d : Diagnostic) (h : d ∈ ds.toList) : ds.push d = ds :=
  if_pos h

theorem push_toList (ds : Diagnostics) (d : Diagnostic) (h : d ∉ ds.toList) :
    (ds.push d).toList = ds.toList ++ [d] := by
  rw [push, if_neg h]

theorem pushAll_nil (ds : Diagnostics) : ds.pushAll [] = ds := rfl

theorem pushAll_cons (ds : Diagnostics) (d : Diagnostic) (l : List Diagnostic) :
    ds.pushAll (d :: l) = (ds.push d).pushAll l := rfl

theorem pushAll_append (ds : Diagnostics) (a b : List Diagnostic) :
    ds.pushAll (a ++ b) = (ds.pushAll a).pushAll b := List.foldl_append

theorem mem_push (ds : Diagnostics) (d x : Diagnostic) :
    x ∈ (ds.push d).toList ↔ x ∈ ds.toList ∨ x = d := by
  by_cases h : d ∈ ds.toList
  · rw [push_of_mem ds d h]
    constructor
    · exact Or.inl
    · intro hx
      cases hx with
      | inl hx => exact hx
      | inr hx => rw [hx]; exact h
  · rw [push_toList ds d h, List.mem_append, List.mem_singleton]

end Diagnostics

/-! ## log lines -/

inductive Level where
  | debug
  | info
  | warn
  | error
deriving DecidableEq

def Level.tag : Level → String
  | debug => "DEBUG"
  | info => "INFO"
  | warn => "WARN"
  | error => "ERROR"

structure LogLine where
  level : Level
  message : String
deriving DecidableEq

def LogLine.text (l : LogLine) : String := l.level.tag ++ ": " ++ l.message

abbrev Log := List LogLine

end Netlab
