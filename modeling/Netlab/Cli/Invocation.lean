import Netlab.Cli.Settings
import Netlab.Compile.Plan
import Netlab.Link.Basic

/-!
# From a command line to what it asks for

Options stand in front of the name of a subcommand or behind it, mixed with its words; behind two
dashes everything is a word.  The words that a program is run with inside a node are taken as they
are from the first one on.
-/

namespace Netlab.Cli

/-! ## single arguments -/

inductive Argument where
  /-- two dashes -/
  | endOfOptions
  | long (name : String) (value : Option String)
  | letters (letters : List Char)
  | word (word : String)
deriving DecidableEq

def Argument.of (arg : String) : Argument :=
  match arg.toList with
  | ['-', '-'] => .endOfOptions
  | '-' :: '-' :: cs =>
    match Link.splitAt? '=' cs with
    | some (name, value) => .long (String.ofList name) (some (String.ofList value))
    | none => .long (String.ofList cs) none
  | ['-'] => .word arg
  | '-' :: cs => .letters cs
  | _ => .word arg

def Argument.isWord : Argument → Bool
  | .word _ => true
  | _ => false

/-- whether an argument is something else than options that are known -/
def Argument.isForeign (place : Option Subcommand) : Argument → Bool
  | .endOfOptions => false
  | .long name _ => (Flag.ofName? place name).isNone
  | .letters cs => cs.any fun c => (Flag.ofLetter? place c).isNone
  | .word _ => true

/-! ## options -/

/-- the options so far, and the one whose value is still to come -/
structure Progress where
  settings : Settings := {}
  pending : Option Flag := none

namespace Progress

def long (p : Progress) (place : Option Subcommand) (name : String) (value : Option String) :
    Except UsageError Progress := do
  match Flag.ofName? place name with
  | none => throw (.unknownOption name)
  | some flag =>
    match value with
    | some value => return { p with settings := ← p.settings.setValue flag value }
    | none =>
      if flag.takesValue then return { p with pending := some flag }
      else return { p with settings := ← p.settings.setOn flag }

/-- options given by their letters; behind one that takes a value the rest is the value -/
def letters (p : Progress) (place : Option Subcommand) : List Char → Except UsageError Progress
  | [] => .ok p
  | c :: cs => do
    match Flag.ofLetter? place c with
    | none => throw (.unknownOption (String.ofList [c]))
    | some flag =>
      if flag.takesValue then
        match cs with
        | [] => return { p with pending := some flag }
        | '=' :: value =>
          return { p with settings := ← p.settings.setValue flag (String.ofList value) }
        | value => return { p with settings := ← p.settings.setValue flag (String.ofList value) }
      else letters { p with settings := ← p.settings.setOn flag } place cs

/-- the value that an option waits for, if the argument is `fit` for one -/
def value (p : Progress) (flag : Flag) (fit : Bool) (arg : String) :
    Except UsageError Progress := do
  if fit then return { settings := ← p.settings.setValue flag arg }
  else throw (.missingValue flag)

end Progress

/-! ## command lines -/

/-- The word `help` stands alone or in front of one name, which may be its own. -/
def helpOn : List String → UsageError
  | [] => .helpAsked
  | [name] =>
    if name = "help" || (Subcommand.ofName? name).isSome then .helpAsked
    else .unknownSubcommand name
  | _ :: name :: _ => .unknownSubcommand name

/-- everything up to the name of the subcommand -/
def readFront (p : Progress) : List String → Except UsageError (Settings × Subcommand × List String)
  | [] =>
    match p.pending with
    | some flag => .error (.missingValue flag)
    | none => .error .missingSubcommand
  | arg :: args =>
    match p.pending with
    | some flag => do readFront (← p.value flag (Argument.of arg).isWord arg) args
    | none =>
      match Argument.of arg with
      | .endOfOptions => .error .missingSubcommand
      | .long name value => do readFront (← p.long none name value) args
      | .letters cs => do readFront (← p.letters none cs) args
      | .word word =>
        match Subcommand.ofName? word with
        | some c => .ok (p.settings, c, args)
        | none => .error (if word = "help" then helpOn args else .unknownSubcommand word)

/-- Everything behind the name of the subcommand.  `words` are the words so far, backwards, and
`free` tells that only words follow.  Where a program may start, an option that is not known does
not count as one. -/
def readBack (c : Subcommand) (p : Progress) (free : Bool) (words : List String) :
    List String → Except UsageError (Settings × List String)
  | [] =>
    match p.pending with
    | some flag => .error (.missingValue flag)
    | none => .ok (p.settings, words.reverse)
  | arg :: args =>
    let more (free : Bool) :=
      if c.takes (words.length + 1) then readBack c p free (arg :: words) args
      else .error (.unexpectedArgument arg)
    let a := Argument.of arg
    let startsProgram := c = .exec && words.length = 1 && a.isForeign (some c)
    if free then more true
    else
      match p.pending with
      | some flag => do readBack c (← p.value flag (a.isWord || startsProgram) arg) false words args
      | none =>
        if startsProgram then .ok (p.settings, words.reverse ++ arg :: args)
        else
          match a with
          | .endOfOptions => readBack c p true words args
          | .long name value => do readBack c (← p.long (some c) name value) false words args
          | .letters cs => do readBack c (← p.letters (some c) cs) false words args
          | .word _ => more false

inductive Task where
  | script (request : Request)
  | status (all : Bool)
  | sample
  | check
deriving DecidableEq

structure Invocation where
  task : Task
  config : String := "spec.yaml"
  output : Option String := none
  format : ScriptFormat := .text
  annotate : Bool := false
  options : CompileOptions := {}
  verbose : Nat := 0
deriving DecidableEq

def taskOf (c : Subcommand) (all : Bool) (words : List String) : Except UsageError Task :=
  match c, words with
  | .up, _ => .ok (.script .up)
  | .down, _ => .ok (.script .down)
  | .conf, _ => .ok (.script .conf)
  | .reup, _ => .ok (.script .reup)
  | .reconf, _ => .ok (.script .reconf)
  | .test, words => .ok (.script (.test words.head?))
  | .pull, _ => .ok (.script .pull)
  | .exec, node :: word :: words => .ok (.script (.exec node (word :: words)))
  | .exec, _ => .error .missingArguments
  | .ps, _ => .ok (.status all)
  | .init, _ => .ok .sample
  | .check, _ => .ok .check

/-- what a command line asks for -/
def Invocation.ofArgs (args : List String) : Except UsageError Invocation := do
  let (front, c, args) ← readFront {} args
  let (back, words) ← readBack c {} false [] args
  let s := front.merge back
  return {
    task := ← taskOf c s.all words
    config := s.config.getD "spec.yaml"
    output := s.output
    format := s.format.getD .text
    annotate := s.annotate
    options :=
      ⟨if s.skipInvalid then .skip else .abort, if s.releaseHandle then .release else .keep⟩
    verbose := s.verbose }

end Netlab.Cli
