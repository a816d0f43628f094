import Netlab.Topology.Basic
import Netlab.Value.View

/-!
# Topologies read from a document

Fields that are missing have their defaults, except that a command line must give its `cmd` and a
kernel parameter its `sysctl`, which may also be called `string`.
-/

namespace Netlab

namespace View

variable {m : Type → Type} [Monad m] [MonadExcept Misfit m] {ν : Type} (d : View m ν)

def textD (fs : List (String × ν)) (name : String) : m String :=
  fieldD fs name "" d.text

def optionalD (fs : List (String × ν)) (name : String) : m (Option String) :=
  fieldD fs name none d.optional

def listD {α : Type} (fs : List (String × ν)) (name : String) (item : ν → m α) : m (List α) :=
  fieldD fs name [] (d.list item)

def cmd (v : ν) : m String := do
  required (← d.fields ["cmd"] v) "cmd" [] d.text

def sysctl (v : ν) : m String := do
  required (← d.fields ["sysctl"] v) "sysctl" ["string"] d.text

def interface (v : ν) : m Interface := do
  let fs ← d.fields ["name", "type", "args", "addr"] v
  return {
    name := ← d.textD fs "name"
    type := ← d.textD fs "type"
    args := ← d.optionalD fs "args"
    addr := ← d.optionalD fs "addr" }

def node (v : ν) : m Node := do
  let fs ← d.fields ["name", "type", "net_base", "image", "interfaces", "sysctls", "mounts"] v
  return {
    name := ← d.textD fs "name"
    type := ← d.optionalD fs "type"
    netBase := ← d.optionalD fs "net_base"
    image := ← d.optionalD fs "image"
    interfaces := ← d.listD fs "interfaces" d.interface
    sysctls := ← d.listD fs "sysctls" d.sysctl
    mounts := ← d.listD fs "mounts" d.text }

def switch (v : ν) : m Switch := do
  let fs ← d.fields ["name", "interfaces"] v
  return {
    name := ← d.textD fs "name"
    interfaces := ← d.listD fs "interfaces" d.interface }

def hookGroup (v : ν) : m HookGroup := do
  let fs ← d.fields ["cmds"] v
  return { cmds := ← d.listD fs "cmds" d.cmd }

def nodeConfig (v : ν) : m NodeConfig := do
  let fs ← d.fields ["name", "cmds"] v
  return {
    name := ← d.textD fs "name"
    cmds := ← d.listD fs "cmds" d.cmd }

def test (v : ν) : m Test := do
  let fs ← d.fields ["name", "cmds"] v
  return {
    name := ← d.textD fs "name"
    cmds := ← d.listD fs "cmds" d.cmd }

/-- the topology that a document holds -/
def topology (v : ν) : m Topology := do
  let fs ← d.fields
    ["precmd", "preinit", "postinit", "postfini", "nodes", "switches", "node_configs", "test"] v
  return {
    precmd := ← d.listD fs "precmd" d.hookGroup
    preinit := ← d.listD fs "preinit" d.hookGroup
    postinit := ← d.listD fs "postinit" d.hookGroup
    postfini := ← d.listD fs "postfini" d.hookGroup
    nodes := ← d.listD fs "nodes" d.node
    switches := ← d.listD fs "switches" d.switch
    nodeConfigs := ← d.listD fs "node_configs" d.nodeConfig
    tests := ← d.listD fs "test" d.test }

end View

def Topology.ofValue (v : Value) : Except Misfit Topology := Value.view.topology v

end Netlab
