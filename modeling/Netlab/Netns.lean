import Netlab.Shell.Command

/-!
# Named network namespaces, and bridges

A namespace is reached by name through its handle, a file of that name in one directory.  The
namespace of a container has no name of its own: `mount` gives it one.  Bridges are on the host.
-/

namespace Netlab

open Shell (Command quote)

/-- bring up a device of the host -/
def Host.linkUp (link : String) : Command := .argv ["ip", "link", "set", link, "up"]

/-! ## namespaces -/

namespace Netns

/-- where handles live -/
def directory : String := "/var/run/netns"

/-- the path of a handle -/
def handle (name : String) : String := directory ++ "/" ++ name

def add (name : String) : Command := .argv ["ip", "netns", "add", name]

def delete (name : String) : Command := .argv ["ip", "netns", "del", name]

def list : Command := .argv ["ip", "netns", "list"]

/-- the program call that runs a program inside a namespace -/
def run (name : String) (words : List String) : Command :=
  .argv (["ip", "netns", "exec", name] ++ words)

def linkUp (name link : String) : Command := run name ["ip", "link", "set", link, "up"]

def setAddress (name link addr : String) : Command :=
  run name ["ip", "link", "set", link, "address", addr]

/-- apply one kernel parameter inside a namespace -/
def setSysctl (name sysctl : String) : Command := run name ["sysctl", "-w", sysctl]

/-- put the process id of a running container into the shell variable `PID` -/
def containerPid (container : String) : Command :=
  .shell ("PID=`docker inspect " ++ quote container ++ " --format '\x7b\x7b.State.Pid\x7d\x7d'`")

/-- Give the namespace of a running container a handle.  The last line reads the variable that the
line before it sets, so the three stay together. -/
def mount (container : String) : List Command :=
  [ .argv ["mkdir", "-p", directory],
    containerPid container,
    .shell ("ln -s /proc/$PID/ns/net " ++ quote (handle container)) ]

/-- remove a handle, whatever made it -/
def removeHandle (name : String) : Command := .argv ["rm", "-rf", handle name]

end Netns

/-! ## bridges -/

namespace Bridge

def create (switch : String) : List Command :=
  [.argv ["ip", "link", "add", switch, "type", "bridge"], Host.linkUp switch]

/-- make a device of the host a member of a bridge -/
def attach (link switch : String) : Command :=
  .argv ["ip", "link", "set", "dev", link, "master", switch]

def delete (switch : String) : Command := .argv ["ip", "link", "delete", switch]

end Bridge

end Netlab
