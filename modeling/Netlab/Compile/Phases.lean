import Netlab.Compile.Wiring

/-!
# The phases of a topology

Each phase that can fail is a trace, each that cannot is a list of commands.  Within a phase the
commands follow the order of declaration.
-/

namespace Netlab

open Shell (Command)

def HookGroup.commands (g : HookGroup) : List Command := g.cmds.map .shell

def hookCommands (groups : List HookGroup) : List Command := groups.flatMap HookGroup.commands

/-- the namespace of a container gets a handle, a namespace node is its own -/
def NodeKind.mount (kind : NodeKind) (name : String) : List Command :=
  match kind with
  | container => Netns.mount name
  | netns => []

namespace Topology

/-! ## phases -/

def pull (t : Topology) : List Command := pullImages t.nodes

def createSwitches (t : Topology) : List Command := t.switches.flatMap (Bridge.create ·.name)

def createNodes (t : Topology) : Trace :=
  t.nodes.map fun n => .ofUnit do n.create (← n.kind)

def mountNetns (t : Topology) : Trace :=
  t.nodes.map fun n => .ofUnit do return (← n.creatable).mount n.name

/-- the node configs, each inside its node -/
def configure (t : Topology) : Trace :=
  t.nodeConfigs.map fun config =>
    match t.node? config.name with
    | none => .warn s!"Node config '{config.name}' matches no node"
    | some n => .ofUnit do
      let kind ← n.creatable
      return config.cmds.map (kind.exec n.name)

/-- remove every node, then every switch -/
def delete (t : Topology) : Trace :=
  t.nodes.map (fun n => .ofUnit do return (← n.kind).delete n.name)
    ++ [.emit (t.switches.map (Bridge.delete ·.name))]

/-- all tests, or those of one name -/
def testCommands (t : Topology) (name : Option String) : Except CompileError (List Command) :=
  match name with
  | none => .ok (t.tests.flatMap fun test => test.cmds.map .shell)
  | some name =>
    match t.tests.filter (·.name == name) with
    | [] => .error (.unresolvedReference .test name)
    | tests => .ok (tests.flatMap fun test => test.cmds.map .shell)

/-- run a program inside a node, its words joined by spaces -/
def exec (t : Topology) (node : String) (args : List String) : Except CompileError Command := do
  match t.node? node with
  | none => throw (.unresolvedReference .node node)
  | some n =>
    let kind ← n.kind
    return kind.exec n.name (" ".intercalate args)

end Topology

end Netlab
