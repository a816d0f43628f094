import Netlab.Topology.Basic
import Netlab.Value.View

/-!
# Topologies as values

Every field is written under its name in a topology file.  An optional text that is absent, and the
list of sysctls or mounts of a node when it is empty, are left out.
-/

namespace Netlab

namespace Value

/-- a field that is left out when there is no value -/
def optionalField (name : String) (value : Option String) : List (String × Value) :=
  value.toList.map fun s => (name, text s)

/-- a field that is left out when the list is empty -/
def nonemptyField (name : String) (items : List Value) : List (String × Value) :=
  if items.isEmpty then [] else [(name, list items)]

end Value

namespace Interface

def toValue (i : Interface) : Value :=
  .record (("name", .text i.name) :: ("type", .text i.type)
    :: Value.optionalField "args" i.args ++ Value.optionalField "addr" i.addr)

def listToValue (l : List Interface) : Value := .list (l.map toValue)

end Interface

/-- records of one field each, all of the same name -/
def linesToValues (name : String) (lines : List String) : List Value :=
  lines.map fun line => .record [(name, .text line)]

def cmdsToValue (cmds : List String) : Value := .list (linesToValues "cmd" cmds)

def HookGroup.toValue (g : HookGroup) : Value := .record [("cmds", cmdsToValue g.cmds)]

def NodeConfig.toValue (c : NodeConfig) : Value :=
  .record [("name", .text c.name), ("cmds", cmdsToValue c.cmds)]

def Test.toValue (t : Test) : Value :=
  .record [("name", .text t.name), ("cmds", cmdsToValue t.cmds)]

def Switch.toValue (s : Switch) : Value :=
  .record [("name", .text s.name), ("interfaces", Interface.listToValue s.interfaces)]

def Node.toValue (n : Node) : Value :=
  .record (("name", .text n.name)
    :: Value.optionalField "type" n.type ++ Value.optionalField "net_base" n.netBase
    ++ Value.optionalField "image" n.image
    ++ ("interfaces", Interface.listToValue n.interfaces)
    :: Value.nonemptyField "sysctls" (linesToValues "sysctl" n.sysctls)
    ++ Value.nonemptyField "mounts" (n.mounts.map .text))

def Topology.toValue (t : Topology) : Value :=
  .record
    [ ("precmd", .list (t.precmd.map HookGroup.toValue)),
      ("preinit", .list (t.preinit.map HookGroup.toValue)),
      ("postinit", .list (t.postinit.map HookGroup.toValue)),
      ("postfini", .list (t.postfini.map HookGroup.toValue)),
      ("nodes", .list (t.nodes.map Node.toValue)),
      ("switches", .list (t.switches.map Switch.toValue)),
      ("node_configs", .list (t.nodeConfigs.map NodeConfig.toValue)),
      ("test", .list (t.tests.map Test.toValue)) ]

end Netlab
