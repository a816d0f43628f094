import Netlab.Compile.Plan

/-!
# Checking a topology

A check makes the scripts that can fail, `up`, `down`, `conf` and all tests, without writing them.
It fails when one of them cannot be made or leaves out a unit.
-/

namespace Netlab

/-- diagnostics as log lines, the warnings first -/
def Diagnostics.log (ds : Diagnostics) : Log :=
  ds.warnings.map (⟨.warn, ·.text⟩) ++ ds.skippedUnits.map (⟨.error, ·.text⟩)

/-- the outcome of making the scripts of a check -/
structure Check where
  failures : List (String × CompileError) := []
  /-- of the scripts that could be made -/
  diagnostics : Diagnostics := {}

namespace Check

def add (c : Check) (name : String) : Except CompileError Script → Check
  | .ok s => { c with diagnostics := c.diagnostics.extend s.diagnostics }
  | .error e => { c with failures := c.failures ++ [(name, e)] }

def passed (c : Check) : Bool := c.failures.isEmpty && c.diagnostics.skippedUnits.isEmpty

def log (c : Check) : Log :=
  c.failures.map (fun (name, e) => ⟨.error, name ++ ": " ++ e.message⟩) ++ c.diagnostics.log

end Check

def Topology.check (t : Topology) (o : CompileOptions) : Check :=
  (((({} : Check).add "up" (t.up o)).add "down" (t.down o)).add "conf" (t.conf o)).add "test"
    (t.testScript none)

end Netlab
