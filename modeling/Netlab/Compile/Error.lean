/-!
# Why a unit cannot be compiled

A unit is a node, an interface, a node config or a reference by name.
-/

namespace Netlab

/-- what a name given on its own refers to -/
inductive Referent where
  | node
  | test
deriving DecidableEq

def Referent.word : Referent → String
  | node => "node"
  | test => "test"

/-- what is wrong with the arguments of an interface -/
inductive Malformation where
  | noDelimiter
  | emptyEnd
  | manyDelimiters
  | noSwitch
  | noPeer
  /-- given by its wording -/
  | other (reason : String)
deriving DecidableEq

def Malformation.message : Malformation → String
  | noDelimiter => "expected 'peer#interface'"
  | emptyEnd => "peer node and peer interface must both be set"
  | manyDelimiters => "more than one '#' delimiter"
  | noSwitch => "expected a switch name"
  | noPeer => "expected a peer interface name"
  | other reason => reason

inductive CompileError where
  | unresolvedReference (referent : Referent) (name : String)
  | unsupportedNodeKind (node kind : String)
  | unsupportedLinkKind (node interface kind : String)
  | malformedArgument (node interface : String) (reason : Malformation)
  | missingImage (node : String)
  | duplicateBridgePeer (node switch : String)
  | uncreatablePeer (node interface peer : String)
deriving DecidableEq

def CompileError.message : CompileError → String
  | unresolvedReference referent name => s!"No such {referent.word} '{name}'"
  | unsupportedNodeKind node kind =>
    s!"Node '{node}' has unsupported type '{kind}' (expected docker or netns)"
  | unsupportedLinkKind node interface kind =>
    s!"Interface {node}:{interface} has unsupported type '{kind}'"
      ++ " (expected direct, bridge, veth or phys)"
  | malformedArgument node interface reason =>
    s!"Interface {node}:{interface} has malformed args: {reason.message}"
  | missingImage node => s!"Container node '{node}' has no image"
  | duplicateBridgePeer node switch =>
    s!"Node '{node}' attaches to switch '{switch}' more than once"
  | uncreatablePeer node interface peer =>
    s!"Interface {node}:{interface} links to node '{peer}', which can't be created"

end Netlab
