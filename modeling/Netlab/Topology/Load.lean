import Netlab.Files
import Netlab.Text.Shown
import Netlab.Topology.LegacyKey
import Netlab.Topology.Parse

/-!
# Topologies from files
-/

namespace Netlab

inductive LoadError where
  | unreadable (path : String) (error : FileError)
  | unparsable (path : String) (error : ParseError)
deriving DecidableEq

/-- what went wrong and, behind it, why -/
def LoadError.causes : LoadError → List String
  | unreadable path e => [s!"Failed to read topology file '{path}'", e.message]
  | unparsable path e => [s!"Invalid topology file '{path}'", e.message]

/-- the text of a file -/
def fileText (content : Except FileError ByteArray) : Except FileError String := do
  match String.fromUTF8? (← content) with
  | some text => return text
  | none => throw .notText

namespace Topology

/-- the log of loading the text of a file, without what concerns the file -/
def textLog (text : String) : Log := legacyKeyLog text ++ parseLog text

def loadedLog (t : Topology) : Log :=
  [⟨.debug, s!"Loaded {t.nodes.length} nodes, {t.switches.length} switches,"
    ++ s!" {t.nodeConfigs.length} node configs, {t.tests.length} tests"⟩]

/-- the topology in the file at `path` -/
def load (path : String) (content : Except FileError ByteArray) : Except LoadError Topology := do
  let text ← (fileText content).mapError (.unreadable path)
  (parse text).mapError (.unparsable path)

/-- what loading logs -/
def loadLog (path : String) (content : Except FileError ByteArray) : Log :=
  ⟨.debug, "Loading topology from: " ++ Text.shown path⟩ ::
    match fileText content with
    | .error _ => []
    | .ok text =>
      textLog text ++
        match parse text with
        | .ok t => t.loadedLog
        | .error _ => []

end Topology

end Netlab
