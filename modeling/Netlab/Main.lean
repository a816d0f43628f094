import Netlab.Cli.Program

/-!
# The command line program
-/

namespace Netlab.Cli

def usage : String :=
  "Usage: netlab [OPTIONS] <" ++ "|".intercalate (Subcommand.every.map (·.name)) ++ ">\n"

def fileErrorOf : IO.Error → FileError
  | .noFileOrDirectory .. => .notFound
  | .permissionDenied .. => .permission
  | .inappropriateType _ 20 _ => .notDirectory
  | .inappropriateType .. => .isDirectory
  | .invalidArgument _ 36 _ => .nameTooLong
  | e => .other (toString e)

/-- read a file of the host -/
def readHost (path : String) : IO (Except FileError ByteArray) := do
  try return .ok (← IO.FS.readBinFile path) catch e => return .error (fileErrorOf e)

/-- write an executable file of the host -/
def writeHost (path text : String) : IO (Except FileError Unit) := do
  try
    IO.FS.writeFile path text
    let rights : IO.AccessRight := { read := true, write := true, execution := true }
    let others : IO.AccessRight := { read := true, execution := true }
    IO.setAccessRights path { user := rights, group := others, other := others }
    return .ok ()
  catch e => return .error (fileErrorOf e)

def printLog (log : Log) : IO Unit := log.forM fun l => IO.eprintln l.text

def fail (f : Failure) : IO UInt32 := do
  f.causes.forM fun cause => IO.eprintln ("Error: " ++ cause)
  return 1

def runHost (i : Invocation) : IO UInt32 := do
  let content ← if i.readsConfig then readHost i.config else pure (.error .notFound)
  let r := i.respond content
  printLog (visible i.verbose r.log)
  match r.result, i.output with
  | .error f, _ => fail f
  | .ok none, _ => return 0
  | .ok (some text), none =>
    IO.print text
    return 0
  | .ok (some text), some path =>
    match ← writeHost path text with
    | .ok _ =>
      printLog (wroteLog path)
      return 0
    | .error e => fail (.write path e)

end Netlab.Cli

open Netlab Cli

def main (args : List String) : IO UInt32 := do
  match Invocation.ofArgs args with
  | .ok i => runHost i
  | .error .helpAsked | .error .versionAsked =>
    IO.print usage
    return 0
  | .error _ =>
    IO.eprint usage
    return 2
