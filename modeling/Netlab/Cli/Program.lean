import Netlab.Cli.Invocation
import Netlab.Compile.Check
import Netlab.Sample
import Netlab.Topology.Load

/-!
# What the program does

`Invocation.respond` makes the output from the file that is read, if one is; only when it succeeds
is anything written, to the standard output or to a file.
-/

namespace Netlab.Cli

/-! ## failures -/

/-- why the program fails -/
inductive Failure where
  | load (error : LoadError)
  | compile (path : String) (error : CompileError)
  | check
  | write (path : String) (error : FileError)
deriving DecidableEq

/-- what went wrong and, behind it, why -/
def Failure.causes : Failure → List String
  | load e => e.causes
  | compile path e => [s!"Failed to compile '{path}'", e.message]
  | check => ["Topology check failed"]
  | write path e => ["Failed to write script " ++ Text.shown path ++ ": " ++ e.message]

/-! ## output -/

/-- a request as log lines show it -/
def shownRequest : Request → String
  | .up => "Up"
  | .down => "Down"
  | .conf => "Conf"
  | .reup => "Reup"
  | .reconf => "Reconf"
  | .test none => "Test \x7b name: None \x7d"
  | .test (some name) => "Test \x7b name: Some(" ++ Text.shown name ++ ") \x7d"
  | .pull => "Pull"
  | .exec node args =>
    "Exec \x7b node: " ++ Text.shown node ++ ", cmd: [" ++ ", ".intercalate (args.map Text.shown)
      ++ "] \x7d"

/-- what the program has to say, and the text to write, if there is one -/
structure Response where
  log : Log
  result : Except Failure (Option String)

/-- a log as far as it is wanted: debug lines only if asked for -/
def visible (verbose : Nat) (log : Log) : Log :=
  if verbose = 0 then log.filter (·.level ≠ .debug) else log

namespace Invocation

/-- whether the task works on the topology file -/
def readsConfig (i : Invocation) : Bool :=
  match i.task with
  | .script _ => true
  | .check => true
  | _ => false

def rendered (i : Invocation) (s : Script) : String := s.render i.annotate i.format

def respondScript (i : Invocation) (t : Topology) (r : Request) : Response :=
  let start : Log :=
    [⟨.debug, "Compiling " ++ shownRequest r ++ " for " ++ Text.shown i.config⟩]
  match t.script i.options r with
  | .error e => ⟨start, .error (.compile i.config e)⟩
  | .ok s => ⟨start ++ s.diagnostics.log, .ok (some (i.rendered s))⟩

def respondCheck (i : Invocation) (t : Topology) : Response :=
  let c := t.check i.options
  if c.passed then
    let ok : LogLine :=
      ⟨.info, s!"Topology OK: {t.nodes.length} nodes, {t.switches.length} switches"⟩
    ⟨c.log ++ [ok], .ok none⟩
  else ⟨c.log, .error .check⟩

/-- the response to an invocation, given what reading the topology file yields -/
def respond (i : Invocation) (content : Except FileError ByteArray) : Response :=
  let onTopology (k : Topology → Response) : Response :=
    let log := Topology.loadLog i.config content
    match Topology.load i.config content with
    | .error e => ⟨log, .error (.load e)⟩
    | .ok t => { k t with log := log ++ (k t).log }
  match i.task with
  | .script r => onTopology fun t => i.respondScript t r
  | .check => onTopology i.respondCheck
  | .status all => ⟨[], .ok (some (i.rendered (.ofPhase .status (listNodes all))))⟩
  | .sample => ⟨[], .ok (some Sample.text)⟩

end Invocation

/-! ## runs -/

/-- what a run leaves behind besides files -/
structure Outcome where
  code : Nat
  stdout : String := ""
  log : Log := []
  causes : List String := []

def wroteLog (path : String) : Log := [⟨.info, "Wrote " ++ Text.shown path⟩]

def Invocation.run (i : Invocation) (files : FileTree) : Outcome × FileTree :=
  let r := i.respond (files.read i.config)
  let log := visible i.verbose r.log
  match r.result with
  | .error f => ({ code := 1, log, causes := f.causes }, files)
  | .ok none => ({ code := 0, log }, files)
  | .ok (some text) =>
    match i.output with
    | none => ({ code := 0, log, stdout := text }, files)
    | some path =>
      match files.write path text with
      | .ok files => ({ code := 0, log := log ++ wroteLog path }, files)
      | .error e => ({ code := 1, log, causes := (Failure.write path e).causes }, files)

/-- a run of the program; a command line that is not carried out leaves nothing behind -/
def run (args : List String) (files : FileTree) : Outcome × FileTree :=
  match Invocation.ofArgs args with
  | .ok i => i.run files
  | .error .helpAsked => ({ code := 0 }, files)
  | .error .versionAsked => ({ code := 0 }, files)
  | .error _ => ({ code := 2 }, files)

end Netlab.Cli
