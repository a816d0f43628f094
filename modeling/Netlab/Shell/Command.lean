import Netlab.Shell.Word

/-!
# Commands of a script

A command keeps its words apart until it is written: `argv` is a program call word by word,
`within` runs a line of shell text inside a node by the program call `lead`, and `shell` is a line
of shell text as it stands.
-/

namespace Netlab.Shell

inductive Command where
  | argv (words : List String)
  | within (lead : List String) (line : String)
  | shell (line : String)
deriving DecidableEq

namespace Command

/-- the program call `words` with one more word; other commands stay as they are -/
def addWord (word : String) : Command → Command
  | argv words => argv (words ++ [word])
  | within lead line => within lead line
  | shell line => shell line

def addWords (c : Command) (words : List String) : Command :=
  words.foldl (fun c w => c.addWord w) c

/-- the words of a program call -/
def words? : Command → Option (List String)
  | argv words => some words
  | _ => none

/-- the command as one line of shell text -/
def text : Command → String
  | argv words => joinWords words
  | within lead line => joinWords lead ++ " " ++ line
  | shell line => line

end Command

end Netlab.Shell
