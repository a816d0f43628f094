import Netlab.Compile.Trace
import Netlab.Link.Wiring

/-!
# Wiring all links

The interfaces of all nodes that can be created are wired in declaration order.  Two things are
remembered along the way: the direct links that are wired, so that a link declared from both ends
is made once, and the host ends of bridge links, whose names must differ.
-/

namespace Netlab

open Shell (Command)

/-! ## the two ends of a direct link -/

/-- an interface of a node, by name -/
structure Endpoint where
  node : String
  interface : String
deriving DecidableEq

namespace Endpoint

/-- first by node, then by interface -/
def precedes (a b : Endpoint) : Bool :=
  decide (a.node < b.node) || (a.node == b.node && decide (a.interface ≤ b.interface))

/-- the two ends of a link, in an order that does not depend on who declares it -/
def pair (a b : Endpoint) : Endpoint × Endpoint := if a.precedes b then (a, b) else (b, a)

end Endpoint

/-! ## one interface -/

/-- what is wired so far -/
structure Wired where
  links : List (Endpoint × Endpoint) := []
  /-- the host ends of bridge links -/
  hostEnds : List String := []

/-- an interface of a node that can be created, or the error of a node that cannot -/
inductive Site where
  | lost (error : CompileError)
  | live (node : Node) (kind : NodeKind) (interface : Interface)

/-- where links are to be wired, in declaration order -/
def Node.sites (n : Node) : List Site :=
  match n.creatable with
  | .error e => [.lost e]
  | .ok kind => n.interfaces.map (.live n kind)

def Topology.sites (t : Topology) : List Site := t.nodes.flatMap Node.sites

def warnTwice (a b : Endpoint) : String :=
  s!"Direct link {a.node}:{a.interface} <-> {b.node}:{b.interface} is declared twice, wiring it once"

def warnUndeclaredNode (a : Endpoint) (peer : String) : String :=
  s!"Interface {a.node}:{a.interface} links to undeclared node '{peer}'"

def warnUndeclaredSwitch (a : Endpoint) (switch : String) : String :=
  s!"Interface {a.node}:{a.interface} attaches to undeclared switch '{switch}'"

def warnDropped (a : Endpoint) (addr : String) : String :=
  s!"Address {addr} on {a.node}:{a.interface} is dropped,"
    ++ " the netns handle is released before it can be set"

namespace Topology

/-- A direct link whose ends are known already contributes the address of its local end only; one
into a node that cannot be created fails. -/
def wireDirect (t : Topology) (a b : Endpoint) (block : List Command) (addr : Option String)
    (w : Wired) : Trace × Wired :=
  let key := a.pair b
  let wired := { w with links := key :: w.links }
  if key ∈ w.links then
    ([.warn (warnTwice a b), .emit (Link.addressCommands a.node a.interface addr)], w)
  else
    match t.node? b.node with
    | none => ([.warn (warnUndeclaredNode a b.node), .emit block], wired)
    | some peer =>
      match peer.creatable with
      | .error _ => ([.fail (.uncreatablePeer a.node a.interface b.node)], w)
      | .ok _ => ([.emit block], wired)

/-- a host end whose name is taken fails -/
def wireBridge (t : Topology) (a : Endpoint) (switch : String) (block : List Command)
    (w : Wired) : Trace × Wired :=
  let hostEnd := Link.hostEnd switch a.node
  if hostEnd ∈ w.hostEnds then ([.fail (.duplicateBridgePeer a.node switch)], w)
  else
    let wired := { w with hostEnds := hostEnd :: w.hostEnds }
    match t.switch? switch with
    | none => ([.warn (warnUndeclaredSwitch a switch), .emit block], wired)
    | some _ => ([.emit block], wired)

def wireLink (t : Topology) (handles : HandlePolicy) (n : Node) (kind : NodeKind) (i : Interface)
    (l : Link) (w : Wired) : Trace × Wired :=
  let a : Endpoint := ⟨n.name, i.name⟩
  let block := l.commands n.name kind i.name i.addr handles
  match l with
  | .direct peerNode peerInterface => t.wireDirect a ⟨peerNode, peerInterface⟩ block i.addr w
  | .bridge switch => t.wireBridge a switch block w
  | .veth _ | .phys =>
    let lost := if handles.gives kind then i.addr.toList else []
    (lost.map (fun addr => .warn (warnDropped a addr)) ++ [.emit block], w)

def wireSite (t : Topology) (handles : HandlePolicy) (w : Wired) : Site → Trace × Wired
  | .lost e => ([.fail e], w)
  | .live n kind i =>
    match Link.parse n.name i with
    | .error e => ([.fail e], w)
    | .ok l => t.wireLink handles n kind i l w

/-! ## all interfaces -/

def wireSites (t : Topology) (handles : HandlePolicy) : Wired → List Site → Trace
  | _, [] => []
  | w, s :: ss =>
    let (trace, w) := t.wireSite handles w s
    trace ++ wireSites t handles w ss

def wireLinks (t : Topology) (handles : HandlePolicy) : Trace := t.wireSites handles {} t.sites

theorem wireSites_cons (t : Topology) (handles : HandlePolicy) (w : Wired) (s : Site)
    (ss : List Site) :
    t.wireSites handles w (s :: ss)
      = (t.wireSite handles w s).1 ++ t.wireSites handles (t.wireSite handles w s).2 ss := rfl

end Topology

end Netlab
