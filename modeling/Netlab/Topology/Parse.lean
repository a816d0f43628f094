import Netlab.Topology.Decode
import Netlab.Topology.LongNames
import Netlab.Topology.Validation
import Netlab.Yaml.View

/-!
# Topologies from YAML text
-/

namespace Netlab

/-- why a text holds no topology that can be used -/
inductive ParseError where
  | malformed (fault : Yaml.Fault)
  | unfit (misfit : Misfit)
  | invalid (error : ValidationError)
deriving DecidableEq

def ParseError.message : ParseError → String
  | malformed fault => fault.message
  | unfit misfit => misfit.message
  | invalid error => error.message

namespace Topology

/-- the topology that a text holds, valid or not -/
def read (text : String) : Except ParseError Topology := do
  let d ← (Yaml.document text).mapError .malformed
  (d.run (d.view.topology d.root)).mapError .unfit

/-- the valid topology that a text holds -/
def parse (text : String) : Except ParseError Topology := do
  let t ← read text
  t.validate.mapError .invalid
  return t

/-- what parsing a text logs: nothing for a text that is refused -/
def parseLog (text : String) : Log :=
  match parse text with
  | .ok t => t.longNameLog
  | .error _ => []

end Topology

end Netlab
