import Netlab.Compile.Phases
import Netlab.Proofs.Creation
import Netlab.Proofs.Shell.Reader

/-!
# What a command needs, makes and removes

A command is read word by word for what it works on: namespaces and containers by name, bridges,
and devices with the place they are at.  `Command.effect?` is that reading.  A command of no known
form has none, so to say that a command has an effect says that it is of such a form.

* `Shell.between?_append`      what stands between two texts is found there;
* `Node.create_container`      the one command that makes a container;
* the `Host.effect?_…`         one equation for each command that is made.
-/

namespace Netlab

open Shell (Command)

/-! ## parts of a line -/

namespace Shell

/-- the text between the first `front` characters and the last `back` characters of a line -/
def between? (front back line : String) : Option (List Char) :=
  (front.toList.isPrefixOf? line.toList).bind back.toList.isSuffixOf?

theorem between?_append (front word back : String) :
    between? front back (front ++ word ++ back) = some word.toList := by
  have hfront : front.toList.isPrefixOf? (front ++ word ++ back).toList
      = some (word.toList ++ back.toList) := by
    rw [List.isPrefixOf?_eq_some_iff_append_eq, String.toList_append, String.toList_append,
      List.append_assoc]
  have hback : back.toList.isSuffixOf? (word.toList ++ back.toList) = some word.toList := by
    rw [List.isSuffixOf?_eq_some_iff_append_eq]
  rw [between?, hfront, Option.bind_some, hback]

end Shell

namespace Host

/-! ## effects -/

/-- what commands work on -/
inductive Resource where
  | netns (name : String)
  /-- a container that runs -/
  | container (name : String)
  | bridge (name : String)
  /-- at no place if on the host, else in a namespace -/
  | device (place : Option String) (name : String)
deriving DecidableEq

structure Effect where
  needs : List Resource := []
  makes : List Resource := []
  drops : List Resource := []
deriving DecidableEq

/-- the owner of a namespace handle, by its path -/
def handleOwner? (path : String) : Option String :=
  ("/var/run/netns/".toList.isPrefixOf? path.toList).map .ofList

/-- `ip link` on the host -/
def linkEffect? : List String → Option Effect
  | ["add", b, "type", "bridge"] => some { makes := [.bridge b, .device none b] }
  | ["add", i, "type", "veth", "peer", "name", p] =>
    some { makes := [.device none i, .device none p] }
  | ["add", i, "netns", n, "type", "veth", "peer", "name", p] =>
    some { needs := [.netns n], makes := [.device (some n) i, .device none p] }
  | ["add", i, "netns", n, "type", "veth", "peer", "name", p, "netns", m] =>
    some { needs := [.netns n, .netns m], makes := [.device (some n) i, .device (some m) p] }
  | ["set", d, "up"] => some { needs := [.device none d] }
  | ["set", "dev", d, "netns", n] =>
    some { needs := [.device none d, .netns n], makes := [.device (some n) d] }
  | ["set", "dev", d, "master", b] => some { needs := [.device none d, .bridge b] }
  | ["delete", b] => some { drops := [.bridge b, .device none b] }
  | _ => none

/-- a program run inside a namespace -/
def insideEffect? (n : String) : List String → Option Effect
  | ["ip", "link", "set", d, "up"] => some { needs := [.netns n, .device (some n) d] }
  | ["ip", "link", "set", d, "address", _] => some { needs := [.netns n, .device (some n) d] }
  | ["sysctl", "-w", _] => some { needs := [.netns n] }
  | _ => none

/-- a program call; removing what is not there does no harm, so a removal needs nothing -/
def callEffect? : List String → Option Effect
  | "ip" :: "link" :: args => linkEffect? args
  | ["ip", "netns", "add", n] => some { makes := [.netns n] }
  | ["ip", "netns", "del", n] => some { drops := [.netns n] }
  | "ip" :: "netns" :: "exec" :: n :: words => insideEffect? n words
  | "docker" :: "run" :: "-td" :: "--hostname" :: _ :: "--net" :: _ :: "--name" :: n :: _ =>
    some { makes := [.container n] }
  | ["docker", "rm", "-f", n] => some { drops := [.container n] }
  | ["rm", "-rf", path] => (handleOwner? path).map fun n => { drops := [.netns n] }
  | ["mkdir", "-p", _] => some {}
  | _ => none

/-- a program call that runs a line of text inside a node -/
def leadEffect? : List String → Option Effect
  | ["docker", "exec", n] => some { needs := [.container n] }
  | ["ip", "netns", "exec", n] => some { needs := [.netns n] }
  | _ => none

/-- the container whose process id a line looks up -/
def inspected? (line : String) : Option String :=
  (Shell.between? "PID=`docker inspect " " --format '\x7b\x7b.State.Pid\x7d\x7d'`" line).bind
    Shell.unquote?

/-- the node whose handle a line makes from the process id looked up -/
def linked? (line : String) : Option String :=
  ((Shell.between? "ln -s /proc/$PID/ns/net " "" line).bind Shell.unquote?).bind handleOwner?

/-- a line of shell text -/
def lineEffect? (line : String) : Option Effect :=
  match inspected? line with
  | some n => some { needs := [.container n] }
  | none => (linked? line).map fun n => { needs := [.container n], makes := [.netns n] }

end Host

/-- what a command of a known form needs, makes and removes -/
def Shell.Command.effect? : Command → Option Host.Effect
  | .argv words => Host.callEffect? words
  | .within lead _ => Host.leadEffect? lead
  | .shell line => Host.lineEffect? line

/-! ## the commands that are made -/

/-- a container that is created is created by one command -/
theorem Node.create_container (n : Node) (cmds : List Command)
    (hcreate : n.create .container = .ok cmds) : ∃ image, cmds = [.argv (n.runWords image)] := by
  obtain ⟨image, _, _, hcmds⟩ := (n.create_container_eq_ok_iff cmds).mp hcreate
  exact ⟨image, hcmds⟩

namespace Host

theorem handleOwner?_handle (n : String) : handleOwner? (Netns.handle n) = some n := by
  have h : "/var/run/netns/".toList.isPrefixOf? (Netns.handle n).toList = some n.toList := by
    rw [List.isPrefixOf?_eq_some_iff_append_eq, Netns.handle, String.toList_append]
    rfl
  rw [handleOwner?, h, Option.map_some, String.ofList_toList]

theorem effect?_netnsAdd (n : String) : (Netns.add n).effect? = some { makes := [.netns n] } := rfl

theorem effect?_netnsDelete (n : String) :
    (Netns.delete n).effect? = some { drops := [.netns n] } := rfl

theorem effect?_setSysctl (n v : String) :
    (Netns.setSysctl n v).effect? = some { needs := [.netns n] } := rfl

theorem effect?_linkUp (n d : String) :
    (Netns.linkUp n d).effect? = some { needs := [.netns n, .device (some n) d] } := rfl

theorem effect?_setAddress (n d addr : String) :
    (Netns.setAddress n d addr).effect? = some { needs := [.netns n, .device (some n) d] } := rfl

theorem effect?_hostLinkUp (d : String) :
    (Host.linkUp d).effect? = some { needs := [.device none d] } := rfl

theorem effect?_attach (d b : String) :
    (Bridge.attach d b).effect? = some { needs := [.device none d, .bridge b] } := by
  show linkEffect? ["set", "dev", d, "master", b] = _
  simp only [linkEffect?]

theorem effect?_exec (kind : NodeKind) (n line : String) :
    (kind.exec n line).effect? = some { needs := [match kind with
      | .container => .container n
      | .netns => .netns n] } := by
  cases kind <;> rfl

theorem effect?_run (node : Node) (image : String) :
    (Command.argv (node.runWords image)).effect? = some { makes := [.container node.name] } := rfl

theorem effect?_removeHandle (n : String) :
    (Netns.removeHandle n).effect? = some { drops := [.netns n] } := by
  show (handleOwner? (Netns.handle n)).map _ = _
  rw [handleOwner?_handle]
  rfl

theorem effect?_bridgeAdd (b : String) :
    (Command.argv ["ip", "link", "add", b, "type", "bridge"]).effect?
      = some { makes := [.bridge b, .device none b] } := rfl

theorem effect?_bridgeDelete (b : String) :
    (Bridge.delete b).effect? = some { drops := [.bridge b, .device none b] } := by
  show linkEffect? ["delete", b] = _
  simp only [linkEffect?]

theorem effect?_vethCreate (i p : String) :
    (Link.vethCreate i p).effect? = some { makes := [.device none i, .device none p] } := rfl

theorem effect?_pairInside (i n p : String) :
    (Command.argv ["ip", "link", "add", i, "netns", n, "type", "veth", "peer", "name", p]).effect?
      = some { needs := [.netns n], makes := [.device (some n) i, .device none p] } := rfl

theorem effect?_pairBetween (i n p m : String) :
    (Command.argv ["ip", "link", "add", i, "netns", n, "type", "veth", "peer", "name", p, "netns",
        m]).effect?
      = some { needs := [.netns n, .netns m],
               makes := [.device (some n) i, .device (some m) p] } := rfl

theorem effect?_move (d n : String) :
    (Command.argv ["ip", "link", "set", "dev", d, "netns", n]).effect?
      = some { needs := [.device none d, .netns n], makes := [.device (some n) d] } := by
  show linkEffect? ["set", "dev", d, "netns", n] = _
  simp only [linkEffect?]

theorem effect?_containerRemove (n : String) :
    (Command.argv ["docker", "rm", "-f", n]).effect? = some { drops := [.container n] } := rfl

theorem effect?_mkdir (d : String) : (Command.argv ["mkdir", "-p", d]).effect? = some {} := rfl

theorem effect?_containerPid (n : String) :
    (Netns.containerPid n).effect? = some { needs := [.container n] } := by
  rw [Netns.containerPid, Command.effect?, lineEffect?, inspected?, Shell.between?_append,
    Option.bind_some, Shell.unquote?_quote]

/-- the line that makes a handle is not one that looks up a process id -/
theorem inspected?_link (rest : String) :
    inspected? ("ln -s /proc/$PID/ns/net " ++ rest) = none := by
  rw [inspected?, Shell.between?, String.toList_append]
  rfl

theorem linked?_link (n : String) :
    linked? ("ln -s /proc/$PID/ns/net " ++ Shell.quote (Netns.handle n)) = some n := by
  rw [linked?, ← String.append_empty (s := _ ++ Shell.quote _), Shell.between?_append,
    Option.bind_some, Shell.unquote?_quote, Option.bind_some, handleOwner?_handle]

/-- the line that looks up a process id is not one that makes a handle -/
theorem linked?_inspect (rest : String) : linked? ("PID=`docker inspect " ++ rest) = none := by
  rw [linked?, Shell.between?, String.toList_append]
  rfl

theorem effect?_link (n : String) :
    (Command.shell ("ln -s /proc/$PID/ns/net " ++ Shell.quote (Netns.handle n))).effect?
      = some { needs := [.container n], makes := [.netns n] } := by
  rw [Command.effect?, lineEffect?, inspected?_link, linked?_link]
  rfl

end Host

end Netlab
