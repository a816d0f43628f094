import Netlab.Script.Render

/-!
# Options of the command line

An option has a long name and some a letter.  One that takes a value and one that is on or off may
be given once, only `verbose` counts.
-/

namespace Netlab.Cli

inductive Flag where
  | config
  | output
  | format
  | annotate
  | skipInvalid
  | releaseHandle
  | verbose
  | all
  | help
  | version
deriving DecidableEq

inductive Subcommand where
  | up
  | down
  | conf
  | reup
  | reconf
  | test
  | pull
  | exec
  | ps
  | init
  | check
deriving DecidableEq

namespace Subcommand

def name : Subcommand → String
  | up => "up"
  | down => "down"
  | conf => "conf"
  | reup => "reup"
  | reconf => "reconf"
  | test => "test"
  | pull => "pull"
  | exec => "exec"
  | ps => "ps"
  | init => "init"
  | check => "check"

def every : List Subcommand := [up, down, conf, reup, reconf, test, pull, exec, ps, init, check]

def ofName? (name : String) : Option Subcommand := every.find? (·.name == name)

/-- how many words may follow the name of a subcommand -/
def takes (c : Subcommand) (words : Nat) : Bool :=
  match c with
  | exec => true
  | test => words ≤ 1
  | _ => words = 0

end Subcommand

/-- why a command line is not carried out -/
inductive UsageError where
  | helpAsked
  | versionAsked
  | unknownOption (name : String)
  | repeatedOption (flag : Flag)
  | missingValue (flag : Flag)
  | unneededValue (flag : Flag)
  | emptyPath
  | unknownFormat (name : String)
  | unknownSubcommand (name : String)
  | missingSubcommand
  | unexpectedArgument (word : String)
  | missingArguments
deriving DecidableEq

namespace Flag

def name : Flag → String
  | config => "config"
  | output => "output"
  | format => "format"
  | annotate => "annotate"
  | skipInvalid => "skip-invalid"
  | releaseHandle => "release-netns-handle"
  | verbose => "verbose"
  | all => "all"
  | help => "help"
  | version => "version"

def letter? : Flag → Option Char
  | config => some 'c'
  | output => some 'o'
  | verbose => some 'v'
  | all => some 'a'
  | help => some 'h'
  | version => some 'V'
  | _ => none

def takesValue : Flag → Bool
  | config => true
  | output => true
  | format => true
  | _ => false

/-- The options that can be given behind a subcommand, or in front of any for `none`.  Most can be
given in both places. -/
def known (place : Option Subcommand) : List Flag :=
  [config, output, format, annotate, skipInvalid, releaseHandle, verbose, help]
    ++ match place with
      | none => [version]
      | some .ps => [all]
      | some _ => []

def ofName? (place : Option Subcommand) (name : String) : Option Flag :=
  (known place).find? (·.name == name)

def ofLetter? (place : Option Subcommand) (letter : Char) : Option Flag :=
  (known place).find? (·.letter? == some letter)

end Flag

/-! ## what has been given -/

/-- the options given in one place -/
structure Settings where
  config : Option String := none
  output : Option String := none
  format : Option ScriptFormat := none
  annotate : Bool := false
  skipInvalid : Bool := false
  releaseHandle : Bool := false
  verbose : Nat := 0
  all : Bool := false
deriving DecidableEq

namespace Settings

/-- a value that may be given once -/
def once {α : Type} (flag : Flag) (old : Option α) (new : α) : Except UsageError (Option α) :=
  if old.isSome then .error (.repeatedOption flag) else .ok (some new)

def path (value : String) : Except UsageError String :=
  if value = "" then .error .emptyPath else .ok value

def formatOf : String → Except UsageError ScriptFormat
  | "text" => .ok .text
  | "json" => .ok .json
  | name => .error (.unknownFormat name)

/-- an option with its value -/
def setValue (s : Settings) (flag : Flag) (value : String) : Except UsageError Settings :=
  match flag with
  | .config => do return { s with config := ← once flag s.config (← path value) }
  | .output => do return { s with output := ← once flag s.output (← path value) }
  | .format => do return { s with format := ← once flag s.format (← formatOf value) }
  | flag => .error (.unneededValue flag)

/-- an option without a value -/
def setOn (s : Settings) (flag : Flag) : Except UsageError Settings :=
  let on (old : Bool) (new : Settings) : Except UsageError Settings :=
    if old then .error (.repeatedOption flag) else .ok new
  match flag with
  | .annotate => on s.annotate { s with annotate := true }
  | .skipInvalid => on s.skipInvalid { s with skipInvalid := true }
  | .releaseHandle => on s.releaseHandle { s with releaseHandle := true }
  | .all => on s.all { s with all := true }
  | .verbose => .ok { s with verbose := s.verbose + 1 }
  | .help => .error .helpAsked
  | .version => .error .versionAsked
  | flag => .error (.missingValue flag)

/-- the options given in front of a subcommand and those behind it, which count for more -/
def merge (outer inner : Settings) : Settings where
  config := inner.config.or outer.config
  output := inner.output.or outer.output
  format := inner.format.or outer.format
  annotate := outer.annotate || inner.annotate
  skipInvalid := outer.skipInvalid || inner.skipInvalid
  releaseHandle := outer.releaseHandle || inner.releaseHandle
  verbose := if inner.verbose = 0 then outer.verbose else inner.verbose
  all := outer.all || inner.all

end Settings

end Netlab.Cli
