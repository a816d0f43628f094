import Netlab.Topology.Basic

/-!
# Well-formed topologies

`Topology.validate` accepts a topology whose node names and switch names are all set and each
different, and whose hardware addresses are six octets; it answers with the first fault in the
order node names, switch names, addresses.  Names that the kernel will refuse as too long are no
fault, they are listed by `Topology.longNames`.
-/

namespace Netlab

/-- what carries a unique name -/
inductive Named where
  | node
  | switch
deriving DecidableEq

def Named.word : Named → String
  | node => "node"
  | switch => "switch"

inductive ValidationError where
  | duplicateName (named : Named) (name : String)
  | emptyName (named : Named)
  | invalidAddress (node interface addr : String)
deriving DecidableEq

def ValidationError.message : ValidationError → String
  | duplicateName named name => s!"Duplicate {named.word} name '{name}'"
  | emptyName named => s!"A {named.word} has an empty name"
  | invalidAddress node interface addr =>
    s!"Invalid hardware address '{addr}' on {node}:{interface}"

/-! ## names -/

/-- the first empty or repeated name, `seen` being the names before these -/
def checkNamesFrom (named : Named) (seen : List String) : List String → Except ValidationError Unit
  | [] => .ok ()
  | name :: names =>
    if name = "" then .error (.emptyName named)
    else if name ∈ seen then .error (.duplicateName named name)
    else checkNamesFrom named (name :: seen) names

def checkNames (named : Named) (names : List String) : Except ValidationError Unit :=
  checkNamesFrom named [] names

/-! ## hardware addresses -/

def isHexDigit (c : Char) : Bool :=
  c.isDigit || ('a' ≤ c && c ≤ 'f') || ('A' ≤ c && c ≤ 'F')

/-- one octet of two hex digits and `more` octets that follow, each after a colon -/
def isOctets (more : Nat) : List Char → Bool
  | a :: b :: cs =>
    isHexDigit a && isHexDigit b &&
      match more, cs with
      | 0, [] => true
      | n + 1, ':' :: cs => isOctets n cs
      | _, _ => false
  | _ => false

/-- six octets joined by colons -/
def isHardwareAddress (addr : String) : Bool := isOctets 5 addr.toList

def checkAddress (node interface addr : String) : Except ValidationError Unit :=
  if isHardwareAddress addr then .ok () else .error (.invalidAddress node interface addr)

/-- the addresses of all interfaces, in declaration order -/
def Topology.addresses (t : Topology) : List (String × String × String) :=
  t.nodes.flatMap fun n =>
    n.interfaces.filterMap fun i => i.addr.map fun addr => (n.name, i.name, addr)

/-! ## topologies -/

namespace Topology

def validate (t : Topology) : Except ValidationError Unit := do
  checkNames .node (t.nodes.map (·.name))
  checkNames .switch (t.switches.map (·.name))
  t.addresses.forM fun (node, interface, addr) => checkAddress node interface addr

end Topology

end Netlab
