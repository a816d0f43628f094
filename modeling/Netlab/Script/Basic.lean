import Netlab.Diagnostics
import Netlab.Shell.Command

/-!
# Scripts

A script is a list of sections, each the commands of one phase.  All of it runs in one shell.
-/

namespace Netlab

open Shell (Command)

/-- a stage of a script -/
inductive Phase where
  | precmd
  | preinit
  | pull
  | createSwitches
  | createNodes
  | mountNetns
  | wireLinks
  | postinit
  | configure
  | test
  | delete
  | postfini
  | exec
  | status
deriving DecidableEq

namespace Phase

def tag : Phase → String
  | precmd => "precmd"
  | preinit => "preinit"
  | pull => "pull"
  | createSwitches => "create-switches"
  | createNodes => "create-nodes"
  | mountNetns => "mount-netns"
  | wireLinks => "wire-links"
  | postinit => "postinit"
  | configure => "configure"
  | test => "test"
  | delete => "delete"
  | postfini => "postfini"
  | exec => "exec"
  | status => "status"

/-- the name of a phase, its words run together -/
def name : Phase → String
  | precmd => "PreCmd"
  | preinit => "PreInit"
  | pull => "Pull"
  | createSwitches => "CreateSwitches"
  | createNodes => "CreateNodes"
  | mountNetns => "MountNetns"
  | wireLinks => "WireLinks"
  | postinit => "PostInit"
  | configure => "Configure"
  | test => "Test"
  | delete => "Delete"
  | postfini => "PostFini"
  | exec => "Exec"
  | status => "Status"

def all : List Phase :=
  [precmd, preinit, pull, createSwitches, createNodes, mountNetns, wireLinks, postinit, configure,
    test, delete, postfini, exec, status]

def ofTag? (tag : String) : Option Phase := all.find? (·.tag == tag)

theorem ofTag?_tag (p : Phase) : ofTag? p.tag = some p := by cases p <;> rfl

end Phase

/-- the commands of one phase, in execution order -/
structure Section where
  phase : Phase
  commands : List Command
deriving DecidableEq

/-- one phase as a list of sections; without commands there is none -/
def Section.ofPhase (phase : Phase) (commands : List Command) : List Section :=
  if commands.isEmpty then [] else [⟨phase, commands⟩]

structure Script where
  sections : List Section := []
  /-- what was recorded while the script was made -/
  diagnostics : Diagnostics := {}
deriving DecidableEq

namespace Script

/-- the script with one more phase at its end -/
def push (s : Script) (phase : Phase) (commands : List Command) : Script :=
  { s with sections := s.sections ++ Section.ofPhase phase commands }

/-- a script of one phase -/
def ofPhase (phase : Phase) (commands : List Command) : Script := push {} phase commands

/-- the commands of the first section of a phase -/
def phase? (s : Script) (phase : Phase) : Option (List Command) :=
  (s.sections.find? (·.phase == phase)).map (·.commands)

/-- all commands in execution order -/
def commands (s : Script) : List Command := s.sections.flatMap (·.commands)

end Script

end Netlab
