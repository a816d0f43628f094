import Netlab.Compile.Phases
import Netlab.Script.Basic

/-!
# Plans and the scripts made from them

A plan lists phases with their traces.  Running it shares one collection of diagnostics between
all phases, ends at the first phase that ends early, and leaves out phases without commands.  The
plans of the composite scripts are the plans of their parts, one behind the other.  A request says
which script is asked for.
-/

namespace Netlab

structure CompileOptions where
  policy : UnitPolicy := .abort
  handles : HandlePolicy := .keep
deriving DecidableEq

abbrev Plan := List (Phase × Trace)

namespace Plan

def run (policy : UnitPolicy) :
    Plan → Diagnostics → Except CompileError (List Section) × Diagnostics
  | [], ds => (.ok [], ds)
  | (phase, trace) :: plan, ds =>
    match trace.run policy ds with
    | (.error e, ds) => (.error e, ds)
    | (.ok cmds, ds) =>
      let (rest, ds) := run policy plan ds
      (rest.map (Section.ofPhase phase cmds ++ ·), ds)

def script (policy : UnitPolicy) (plan : Plan) : Except CompileError Script :=
  let (sections, ds) := plan.run policy {}
  sections.map fun sections => ⟨sections, ds⟩

/-- a phase that cannot fail -/
def hooks (phase : Phase) (groups : List HookGroup) : Plan :=
  [(phase, [.emit (hookCommands groups)])]

end Plan

namespace Topology

/-! ## plans -/

def precmdPlan (t : Topology) : Plan := Plan.hooks .precmd t.precmd

def upPlan (t : Topology) (handles : HandlePolicy) : Plan :=
  Plan.hooks .preinit t.preinit
    ++ [ (.createSwitches, [.emit t.createSwitches]),
         (.createNodes, t.createNodes),
         (.mountNetns, t.mountNetns),
         (.wireLinks, t.wireLinks handles) ]
    ++ Plan.hooks .postinit t.postinit

def downPlan (t : Topology) : Plan := (.delete, t.delete) :: Plan.hooks .postfini t.postfini

def confPlan (t : Topology) : Plan := [(.configure, t.configure)]

/-! ## scripts -/

/-- bring everything up -/
def up (t : Topology) (o : CompileOptions) : Except CompileError Script :=
  (t.precmdPlan ++ t.upPlan o.handles).script o.policy

/-- remove everything -/
def down (t : Topology) (o : CompileOptions) : Except CompileError Script :=
  (t.precmdPlan ++ t.downPlan).script o.policy

/-- run the node configs -/
def conf (t : Topology) (o : CompileOptions) : Except CompileError Script :=
  (t.precmdPlan ++ t.confPlan).script o.policy

/-- remove everything and bring it up again -/
def reup (t : Topology) (o : CompileOptions) : Except CompileError Script :=
  (t.precmdPlan ++ t.downPlan ++ t.upPlan o.handles).script o.policy

/-- remove everything, bring it up again and run the node configs -/
def reconf (t : Topology) (o : CompileOptions) : Except CompileError Script :=
  (t.precmdPlan ++ t.downPlan ++ t.upPlan o.handles ++ t.confPlan).script o.policy

/-- run all tests, or those of one name -/
def testScript (t : Topology) (name : Option String) : Except CompileError Script := do
  let cmds ← t.testCommands name
  return (Script.ofPhase .precmd (hookCommands t.precmd)).push .test cmds

def pullScript (t : Topology) : Script := .ofPhase .pull t.pull

def execScript (t : Topology) (node : String) (args : List String) :
    Except CompileError Script := do
  return .ofPhase .exec [← t.exec node args]

end Topology

/-! ## requests -/

/-- what a script is to do -/
inductive Request where
  | up
  | down
  | conf
  | reup
  | reconf
  | test (name : Option String)
  | pull
  | exec (node : String) (args : List String)
deriving DecidableEq

def Topology.script (t : Topology) (o : CompileOptions) : Request → Except CompileError Script
  | .up => t.up o
  | .down => t.down o
  | .conf => t.conf o
  | .reup => t.reup o
  | .reconf => t.reconf o
  | .test name => t.testScript name
  | .pull => .ok t.pullScript
  | .exec node args => t.execScript node args

end Netlab
