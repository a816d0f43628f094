import Netlab.Diagnostics
import Netlab.Link.Wiring

/-!
# Interface names that the kernel refuses

A device name has at most 15 bytes.  Names of declared interfaces, of the host ends of bridge links
and of switches become device names.
-/

namespace Netlab

def maxNameBytes : Nat := 15

def isLongName (name : String) : Bool := maxNameBytes < name.utf8ByteSize

/-- the device names that an interface brings along, as far as its type and arguments show them
without being trimmed -/
def Interface.deviceNames (node : String) (i : Interface) : List String :=
  let hostEnds := if i.type = "bridge" then i.args.toList.map (Link.hostEnd · node) else []
  i.name :: hostEnds

namespace Topology

def deviceNames (t : Topology) : List String :=
  t.nodes.flatMap (fun n => n.interfaces.flatMap (·.deviceNames n.name))
    ++ t.switches.map (·.name)

/-- the names that are too long, in declaration order -/
def longNames (t : Topology) : List String := t.deviceNames.filter isLongName

def longNameLog (t : Topology) : Log :=
  t.longNames.map fun name =>
    ⟨.warn, s!"Interface name '{name}' is longer than {maxNameBytes} bytes"
      ++ " and will be rejected by the kernel"⟩

end Topology

end Netlab
