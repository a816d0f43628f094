import Netlab.Compile.Error
import Netlab.Text.Blank
import Netlab.Topology.Basic

/-!
# Links

The type of an interface selects one of four ways to wire it, its arguments say where to.
-/

namespace Netlab

inductive Link where
  /-- a veth pair into the namespace of another node -/
  | direct (peerNode peerInterface : String)
  /-- a veth pair whose host end is a member of a bridge -/
  | bridge (switch : String)
  /-- a veth pair made on the host, whose local end moves into the node -/
  | veth (peer : String)
  /-- a device of the host that moves into the node -/
  | phys
deriving DecidableEq

namespace Link

/-- the text before the first `delimiter` and the text behind it -/
def splitAt? (delimiter : Char) : List Char → Option (List Char × List Char)
  | [] => none
  | c :: cs =>
    if c = delimiter then some ([], cs)
    else (splitAt? delimiter cs).map fun (a, b) => (c :: a, b)

/-- the two ends that the arguments of a direct link name -/
def directEnds (args : List Char) : Except Malformation Link :=
  match splitAt? '#' args with
  | none => .error .noDelimiter
  | some (node, interface) =>
    if node = [] ∨ interface = [] then .error .emptyEnd
    else if '#' ∈ interface then .error .manyDelimiters
    else .ok (direct (String.ofList node) (String.ofList interface))

/-- the link of an interface of `node`; blank characters around type and arguments do not count -/
def parse (node : String) (i : Interface) : Except CompileError Link :=
  let args := Text.trim (i.args.getD "")
  let malformed (reason : Malformation) := CompileError.malformedArgument node i.name reason
  match Text.trim i.type with
  | "direct" => (directEnds args.toList).mapError malformed
  | "bridge" => if args = "" then .error (malformed .noSwitch) else .ok (bridge args)
  | "veth" => if args = "" then .error (malformed .noPeer) else .ok (veth args)
  | "phys" => .ok phys
  | type => .error (.unsupportedLinkKind node i.name type)

end Link

end Netlab
