/-!
# Topologies

What a topology file declares: nodes with their interfaces, switches, hook commands, the commands
that configure a node, and tests.  The type of a node or of an interface is kept as the text that
was written; `Node.kind` and `Link.parse` give it its meaning.
-/

namespace Netlab

/-- an attachment point of a node or of a switch -/
structure Interface where
  name : String := ""
  /-- `direct`, `bridge`, `veth` or `phys` -/
  type : String := ""
  /-- `peer#interface` of a direct link, the switch of a bridge link, the host end of a veth link -/
  args : Option String := none
  /-- hardware address of the local end -/
  addr : Option String := none
deriving DecidableEq

/-- a container or a bare network namespace -/
structure Node where
  name : String := ""
  /-- `docker` or `container` (when unset), `netns` or `namespace` -/
  type : Option String := none
  /-- container network at the start -/
  netBase : Option String := none
  image : Option String := none
  interfaces : List Interface := []
  /-- kernel parameters, each as `name=value` -/
  sysctls : List String := []
  mounts : List String := []
deriving DecidableEq

/-- a bridge on the host; its interfaces are informative only -/
structure Switch where
  name : String := ""
  interfaces : List Interface := []
deriving DecidableEq

/-- lines of shell text run at a fixed moment of a script -/
structure HookGroup where
  cmds : List String := []
deriving DecidableEq

/-- lines of shell text run inside the node of the same name -/
structure NodeConfig where
  name : String := ""
  cmds : List String := []
deriving DecidableEq

/-- a named group of lines of shell text that check the running topology -/
structure Test where
  name : String := ""
  cmds : List String := []
deriving DecidableEq

structure Topology where
  /-- put in front of every script -/
  precmd : List HookGroup := []
  /-- before any node or switch exists -/
  preinit : List HookGroup := []
  /-- after all links are wired -/
  postinit : List HookGroup := []
  /-- after everything is removed -/
  postfini : List HookGroup := []
  nodes : List Node := []
  switches : List Switch := []
  nodeConfigs : List NodeConfig := []
  tests : List Test := []
deriving DecidableEq

namespace Topology

/-- the first node of that name -/
def node? (t : Topology) (name : String) : Option Node := t.nodes.find? (·.name == name)

/-- the first switch of that name -/
def switch? (t : Topology) (name : String) : Option Switch := t.switches.find? (·.name == name)

theorem node?_name (t : Topology) (name : String) (n : Node) (h : t.node? name = some n) :
    n.name = name := by
  have := List.find?_some h
  simpa using this

theorem node?_mem (t : Topology) (name : String) (n : Node) (h : t.node? name = some n) :
    n ∈ t.nodes := List.mem_of_find?_eq_some h

theorem switch?_name (t : Topology) (name : String) (s : Switch) (h : t.switch? name = some s) :
    s.name = name := by
  have := List.find?_some h
  simpa using this

theorem switch?_mem (t : Topology) (name : String) (s : Switch) (h : t.switch? name = some s) :
    s ∈ t.switches := List.mem_of_find?_eq_some h

end Topology

end Netlab
