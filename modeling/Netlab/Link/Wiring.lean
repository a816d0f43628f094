import Netlab.Link.Basic
import Netlab.Node.Lifecycle

/-!
# The commands that wire a link

Each list is in execution order.  The local end is up before it gets its address; an end that moves
into a node is moved before it comes up.
-/

namespace Netlab

open Shell (Command)

/-- what becomes of the handle of a container after a device moved into it -/
inductive HandlePolicy where
  | keep
  | release
deriving DecidableEq

/-- whether a move into a node of that kind gives up the handle -/
def HandlePolicy.gives (policy : HandlePolicy) (kind : NodeKind) : Bool :=
  policy == .release && kind == .container

namespace Link

/-- the host end of the veth pair between a switch and a node -/
def hostEnd (switch node : String) : String := switch ++ "-" ++ node

def directCommands (node interface peerNode peerInterface : String) : List Command :=
  [ .argv ["ip", "link", "add", interface, "netns", node, "type", "veth", "peer", "name",
      peerInterface, "netns", peerNode],
    Netns.linkUp node interface,
    Netns.linkUp peerNode peerInterface ]

def bridgeCommands (node interface switch : String) : List Command :=
  [ .argv ["ip", "link", "add", interface, "netns", node, "type", "veth", "peer", "name",
      hostEnd switch node],
    Netns.linkUp node interface,
    Host.linkUp (hostEnd switch node),
    Bridge.attach (hostEnd switch node) switch ]

/-- move a device of the host into a node; the handle of a container may go afterwards -/
def moveCommands (node : String) (kind : NodeKind) (device : String) (policy : HandlePolicy) :
    List Command :=
  [.argv ["ip", "link", "set", "dev", device, "netns", node], Netns.linkUp node device]
    ++ if policy.gives kind then [Netns.delete node] else []

def vethCreate (interface peer : String) : Command :=
  .argv ["ip", "link", "add", interface, "type", "veth", "peer", "name", peer]

/-- a pair whose local end moves into the node; the commands `address` come before its peer is up -/
def vethCommands (node : String) (kind : NodeKind) (interface peer : String)
    (policy : HandlePolicy) (address : List Command := []) : List Command :=
  vethCreate interface peer :: moveCommands node kind interface policy ++ address
    ++ [Host.linkUp peer]

/-- whether the local end is a device that moves into the node -/
def moves : Link → Bool
  | veth _ => true
  | phys => true
  | _ => false

/-- whether the address of an interface is lost, its node being out of reach once it is wired -/
def losesAddress (l : Link) (kind : NodeKind) (policy : HandlePolicy) : Bool :=
  l.moves && policy.gives kind

/-- the command that sets the address of the local end, if there is one to set -/
def addressCommands (node interface : String) (addr : Option String) : List Command :=
  addr.toList.map (Netns.setAddress node interface)

/-- everything that wires one interface of a node -/
def commands (l : Link) (node : String) (kind : NodeKind) (interface : String)
    (addr : Option String) (policy : HandlePolicy) : List Command :=
  let address :=
    addressCommands node interface (if l.losesAddress kind policy then none else addr)
  match l with
  | direct peerNode peerInterface =>
    directCommands node interface peerNode peerInterface ++ address
  | bridge switch => bridgeCommands node interface switch ++ address
  | veth peer => vethCommands node kind interface peer policy address
  | phys => moveCommands node kind interface policy ++ address

end Link

end Netlab
