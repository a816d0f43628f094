/-!
# Files

A tree of files below the working directory, as far as a program sees it that reads files by path
and writes some.  A directory is there when a file is below it; the working directory, those above
it and the root are always there.  Of what is below the root only the null device is known, an
empty file.
-/

namespace Netlab

/-- why a file cannot be read or written -/
inductive FileError where
  | notFound
  | permission
  | notDirectory
  | isDirectory
  | nameTooLong
  | nulInPath
  /-- the file is there but holds no text in UTF-8 -/
  | notText
  /-- given by its wording -/
  | other (reason : String)
deriving DecidableEq

def FileError.message : FileError → String
  | notFound => "No such file or directory (os error 2)"
  | permission => "Permission denied (os error 13)"
  | notDirectory => "Not a directory (os error 20)"
  | isDirectory => "Is a directory (os error 21)"
  | nameTooLong => "File name too long (os error 36)"
  | nulInPath => "file name contained an unexpected NUL byte"
  | notText => "stream did not contain valid UTF-8"
  | other reason => reason

/-! ## paths -/

/-- the parts of a path between its slashes, empty ones included -/
def pathParts : List Char → List (List Char)
  | [] => [[]]
  | c :: cs =>
    match pathParts cs with
    | [] => [[c]]
    | part :: parts => if c = '/' then [] :: part :: parts else (c :: part) :: parts

/-- the steps that a path takes, one for each name in it -/
def pathSteps (path : String) : List String :=
  ((pathParts path.toList).filter (!·.isEmpty)).map String.ofList

/-- A slash at the end asks for a directory. -/
def asksDirectory (path : String) : Bool := path = "" || path.toList.getLast? = some '/'

/-- how many bytes a name may take -/
def maxName : Nat := 255

/-- how many bytes a path may take -/
def maxPath : Nat := 4095

/-- what is wrong with a path before any of its names is looked up -/
def checkPath (path : String) : Except FileError Unit :=
  if path.toList.contains '\x00' then .error .nulInPath
  else if maxPath < path.utf8ByteSize then .error .nameTooLong
  else .ok ()

/-- where a path starts: at the root or in the working directory -/
def pathStart (path : String) : List String :=
  if path.toList.head? = some '/' then ["/"] else []

/-! ## trees -/

structure File where
  content : ByteArray
  executable : Bool := false

structure FileTree where
  /-- by the names on the way from the working directory -/
  files : List (List String × File) := []

namespace FileTree

def nullDevice : List String := ["/", "dev", "null"]

def file? (t : FileTree) (names : List String) : Option File :=
  (t.files.lookup names).or (if names = nullDevice then some ⟨.empty, false⟩ else none)

def isDirectory (t : FileTree) (names : List String) : Bool :=
  names = ["/"] || names.all (· = "..")
    || (nullDevice :: t.files.map (·.1)).any fun below => names.isPrefixOf below && names ≠ below

/-- one step further, before it is known what is there -/
def step (names : List String) : String → List String
  | "." => names
  | ".." =>
    if names = ["/"] then names
    else if names.all (· = "..") then names ++ [".."]
    else names.dropLast
  | name => names ++ [name]

/-- the names of what a name in a directory leads to -/
def lookIn (names : List String) (name : String) : Except FileError (List String) :=
  if maxName < name.utf8ByteSize then .error .nameTooLong else .ok (step names name)

/-- one step further, into a directory -/
def enter (t : FileTree) (names : List String) (name : String) :
    Except FileError (List String) := do
  let next ← lookIn names name
  if t.isDirectory next then return next
  throw (if (t.file? next).isSome then .notDirectory else .notFound)

/-- the directory that the last name of a path stands in, and that name -/
def lastStep (t : FileTree) (path : String) : Except FileError (List String × String) := do
  checkPath path
  let steps := pathSteps path
  return (← steps.dropLast.foldlM t.enter (pathStart path), steps.getLastD ".")

/-- the names of what a path leads to, which need not be there -/
def locate (t : FileTree) (path : String) : Except FileError (List String) := do
  let (directory, name) ← t.lastStep path
  lookIn directory name

def read (t : FileTree) (path : String) : Except FileError ByteArray := do
  let names ← t.locate path
  match t.file? names with
  | some f => if asksDirectory path then throw .notDirectory else return f.content
  | none => throw (if t.isDirectory names then .isDirectory else .notFound)

/-- the tree with a file put in its place -/
def put (t : FileTree) (names : List String) (f : File) : FileTree :=
  ⟨(names, f) :: t.files.filter (·.1 ≠ names)⟩

/-- what is held where `text` is written; the null device keeps nothing -/
def kept (names : List String) (text : String) : ByteArray :=
  if names = nullDevice then .empty else text.toUTF8

/-- the tree with a file that `text` is written to and that can be executed -/
def write (t : FileTree) (path text : String) : Except FileError FileTree := do
  let (directory, name) ← t.lastStep path
  if asksDirectory path then throw .isDirectory
  let names ← lookIn directory name
  if t.isDirectory names then throw .isDirectory
  return t.put names ⟨kept names text, true⟩

end FileTree

end Netlab
