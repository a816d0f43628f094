import Netlab.Diagnostics
import Netlab.Shell.Command

/-!
# Traces

Compiling a phase goes unit by unit, and each unit has something to report: its commands, a
warning, or the error that it failed with.  The trace of a phase holds these reports in order and
knows no policy.  `Trace.run` reads it: under `abort` the first failure ends the phase, under
`skip` a failure is recorded and the reading goes on.
-/

namespace Netlab

open Shell (Command)

/-- what to do with a unit that fails -/
inductive UnitPolicy where
  | abort
  | skip
deriving DecidableEq

inductive Report where
  | emit (cmds : List Command)
  | warn (message : String)
  | fail (error : CompileError)
deriving DecidableEq

/-- the report of a unit that does not warn -/
def Report.ofUnit : Except CompileError (List Command) → Report
  | .ok cmds => .emit cmds
  | .error e => .fail e

abbrev Trace := List Report

namespace Trace

/-- the commands of a phase, or the error that ended it, and the diagnostics up to there -/
def run (policy : UnitPolicy) :
    Trace → Diagnostics → Except CompileError (List Command) × Diagnostics
  | [], ds => (.ok [], ds)
  | .emit cmds :: t, ds =>
    let (rest, ds) := run policy t ds
    (rest.map (cmds ++ ·), ds)
  | .warn message :: t, ds => run policy t (ds.push (.warning message))
  | .fail e :: t, ds =>
    match policy with
    | .abort => (.error e, ds)
    | .skip => run policy t (ds.push (.skipped e))

/-- all commands of a trace -/
def commands (t : Trace) : List Command :=
  t.flatMap fun
    | .emit cmds => cmds
    | _ => []

/-- the errors of the units that failed -/
def errors (t : Trace) : List CompileError :=
  t.flatMap fun
    | .fail e => [e]
    | _ => []

/-- what a trace records when nothing stops it -/
def diagnostics (t : Trace) : List Diagnostic :=
  t.flatMap fun
    | .emit _ => []
    | .warn message => [.warning message]
    | .fail e => [.skipped e]

theorem commands_append (a b : Trace) : commands (a ++ b) = commands a ++ commands b := by
  simp [commands, List.flatMap_append]

theorem errors_append (a b : Trace) : errors (a ++ b) = errors a ++ errors b := by
  simp [errors, List.flatMap_append]

theorem diagnostics_append (a b : Trace) :
    diagnostics (a ++ b) = diagnostics a ++ diagnostics b := by
  simp [diagnostics, List.flatMap_append]

/-- nothing stops the reading of a trace under `skip` -/
theorem run_skip (t : Trace) (ds : Diagnostics) :
    run .skip t ds = (.ok t.commands, ds.pushAll t.diagnostics) := by
  induction t generalizing ds with
  | nil => rfl
  | cons r t ih =>
    cases r with
    | emit cmds => simp only [run, ih]; rfl
    | warn message => simp only [run, ih]; rfl
    | fail e => simp only [run, ih]; rfl

end Trace

end Netlab
