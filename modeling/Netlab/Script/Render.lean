import Netlab.Script.Basic
import Netlab.Value.Json

/-!
# Scripts as text and as JSON

The shell form has one command a line, and on request a comment line with the tag of each phase in
front of its commands.  The JSON form keeps the words of every command apart, and has tags of its
own for the phases, made from their names.
-/

namespace Netlab

/-! ## shell -/

/-- the comment line in front of a section -/
def Section.heading (s : Section) : String := "# " ++ s.phase.tag ++ "\n"

/-- the lines of a section -/
def Section.text (annotate : Bool) (s : Section) : String :=
  (if annotate then s.heading else "") ++ String.join (s.commands.map (·.text ++ "\n"))

def Script.text (s : Script) (annotate : Bool) : String :=
  String.join (s.sections.map (Section.text annotate))

/-! ## JSON -/

def Shell.Command.toValue : Command → Value
  | argv words => .record [("argv", .list (words.map .text))]
  | within lead line =>
    .record [("prefixed", .record [("prefix", .list (lead.map .text)), ("cmd", .text line)])]
  | shell line => .record [("shell", .text line)]

/-- a name with its words apart: in small letters, and with a hyphen in front of every word but the
first -/
def hyphenated : List Char → List Char
  | [] => []
  | c :: cs => c.toLower :: cs.flatMap fun c => if c.isUpper then ['-', c.toLower] else [c]

/-- the tag of a phase in JSON; what the user writes is run in phases that have one of their own -/
def Phase.key : Phase → String
  | .precmd => "precmd"
  | .preinit => "preinit"
  | .postinit => "postinit"
  | .postfini => "postfini"
  | p => String.ofList (hyphenated p.name.toList)

def Section.toValue (s : Section) : Value :=
  .record [("phase", .text s.phase.key), ("commands", .list (s.commands.map (·.toValue)))]

def Script.toValue (s : Script) : Value := .record [("phases", .list (s.sections.map (·.toValue)))]

/-! ## output -/

inductive ScriptFormat where
  | text
  | json
deriving DecidableEq

/-- what is written for a script; a comment line has no place in JSON -/
def Script.render (s : Script) (annotate : Bool) : ScriptFormat → String
  | .text => s.text annotate
  | .json => s.toValue.json ++ "\n"

end Netlab
