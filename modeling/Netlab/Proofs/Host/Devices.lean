import Mathlib.Data.Finset.Basic
import Netlab.Link.Wiring
import Netlab.Proofs.Reading

/-!
# Devices on a host

A host has handles of namespaces, and devices by place and name.  A command that wires is read as a
change to it (`Command.change?`), and a change fails if what it works on is missing or a name that
it makes is taken.

* the `Net.change?_…`               one equation for each command that wires;
* `Net.exec?_pair` and others       when a change succeeds, and what is there afterwards;
* `Net.execAll?_append`             a list of commands behind another.
-/

namespace Netlab

open Shell (Command)

/-! ## hosts -/

/-- a name on the host, or in a namespace -/
structure Port where
  netns : Option String
  name : String
deriving DecidableEq

structure Device where
  up : Bool := false
  /-- the hardware address that it was given -/
  address : Option String := none
  /-- the bridge that it is a member of -/
  master : Option String := none
deriving DecidableEq

/-- the handles and the devices of a host -/
structure Net where
  handles : Finset String
  device : Port → Option Device

namespace Net
variable (h : Net)

def put (p : Port) (d : Option Device) : Net := { h with device := Function.update h.device p d }

/-- the host itself is in reach, a namespace if it has a handle -/
def Reaches (p : Port) : Prop := ∀ n ∈ p.netns, n ∈ h.handles

instance (p : Port) : Decidable (h.Reaches p) :=
  match hp : p.netns with
  | none => .isTrue fun n hn => by rw [hp] at hn; cases hn
  | some n => decidable_of_iff (n ∈ h.handles) (by simp [Reaches, hp])

/-- a device changed where it is -/
def alter? (p : Port) (f : Device → Device) : Option Net :=
  if h.Reaches p then (h.device p).map fun d => h.put p (some (f d)) else none

end Net

/-! ## changes -/

inductive Change where
  /-- two new devices, joined -/
  | pair (a b : Port)
  | raise (p : Port)
  | address (p : Port) (addr : String)
  /-- a device of the host made a member of a bridge -/
  | attach (device bridge : String)
  /-- a device of the host moved into a namespace -/
  | move (device netns : String)
  /-- a handle removed; what is in the namespace stays there -/
  | release (netns : String)

/-- A device that moves goes down and leaves the bridge that it is a member of. -/
def Change.apply? (h : Net) : Change → Option Net
  | pair a b =>
    if h.Reaches a ∧ h.Reaches b ∧ a ≠ b ∧ h.device a = none ∧ h.device b = none then
      some ((h.put a (some {})).put b (some {}))
    else none
  | raise p => h.alter? p fun d => { d with up := true }
  | address p addr => h.alter? p fun d => { d with address := some addr }
  | attach device bridge =>
    if (h.device ⟨none, bridge⟩).isSome then
      h.alter? ⟨none, device⟩ fun d => { d with master := some bridge }
    else none
  | move device netns =>
    if netns ∈ h.handles ∧ h.device ⟨some netns, device⟩ = none then
      (h.device ⟨none, device⟩).map fun d =>
        (h.put ⟨none, device⟩ none).put ⟨some netns, device⟩
          (some { d with up := false, master := none })
    else none
  | release netns =>
    if netns ∈ h.handles then some { h with handles := h.handles.erase netns } else none

/-! ## commands as changes -/

/-- `ip link` on the host -/
def linkChange? : List String → Option Change
  | ["add", i, "type", "veth", "peer", "name", p] => some (.pair ⟨none, i⟩ ⟨none, p⟩)
  | ["add", i, "netns", n, "type", "veth", "peer", "name", p] =>
    some (.pair ⟨some n, i⟩ ⟨none, p⟩)
  | ["add", i, "netns", n, "type", "veth", "peer", "name", p, "netns", m] =>
    some (.pair ⟨some n, i⟩ ⟨some m, p⟩)
  | ["set", d, "up"] => some (.raise ⟨none, d⟩)
  | ["set", "dev", d, "netns", n] => some (.move d n)
  | ["set", "dev", d, "master", b] => some (.attach d b)
  | _ => none

/-- `ip link` inside a namespace -/
def insideChange? (n : String) : List String → Option Change
  | ["ip", "link", "set", d, "up"] => some (.raise ⟨some n, d⟩)
  | ["ip", "link", "set", d, "address", addr] => some (.address ⟨some n, d⟩ addr)
  | _ => none

def callChange? : List String → Option Change
  | "ip" :: "link" :: args => linkChange? args
  | "ip" :: "netns" :: "exec" :: n :: words => insideChange? n words
  | ["ip", "netns", "del", n] => some (.release n)
  | _ => none

/-- what a command that wires does to a host -/
def Shell.Command.change? : Command → Option Change
  | .argv words => callChange? words
  | _ => none

namespace Net

theorem change?_linkUp (n d : String) :
    (Netns.linkUp n d).change? = some (.raise ⟨some n, d⟩) := rfl

theorem change?_setAddress (n d addr : String) :
    (Netns.setAddress n d addr).change? = some (.address ⟨some n, d⟩ addr) := rfl

theorem change?_hostLinkUp (d : String) : (Host.linkUp d).change? = some (.raise ⟨none, d⟩) := rfl

theorem change?_delete (n : String) : (Netns.delete n).change? = some (.release n) := rfl

theorem change?_attach (d b : String) : (Bridge.attach d b).change? = some (.attach d b) := by
  show linkChange? ["set", "dev", d, "master", b] = _
  simp only [linkChange?]

theorem change?_move (d n : String) :
    (Command.argv ["ip", "link", "set", "dev", d, "netns", n]).change? = some (.move d n) := by
  show linkChange? ["set", "dev", d, "netns", n] = _
  simp only [linkChange?]

theorem change?_vethCreate (i p : String) :
    (Link.vethCreate i p).change? = some (.pair ⟨none, i⟩ ⟨none, p⟩) := rfl

theorem change?_pairInside (i n p : String) :
    (Command.argv ["ip", "link", "add", i, "netns", n, "type", "veth", "peer", "name", p]).change?
      = some (.pair ⟨some n, i⟩ ⟨none, p⟩) := rfl

theorem change?_pairBetween (i n p m : String) :
    (Command.argv ["ip", "link", "add", i, "netns", n, "type", "veth", "peer", "name", p, "netns",
        m]).change?
      = some (.pair ⟨some n, i⟩ ⟨some m, p⟩) := rfl

/-! ## execution -/

/-- what is there after a command, if it succeeds; one of no known form fails -/
def exec? (h : Net) (c : Command) : Option Net := c.change?.bind fun change => change.apply? h

/-- what is there after commands that all succeed -/
def execAll? (h : Net) (cmds : List Command) : Option Net := feed exec? h cmds

section
variable {h h' : Net} {c : Command}

theorem execAll?_cons (cs : List Command) (hc : h.exec? c = some h') :
    h.execAll? (c :: cs) = h'.execAll? cs := feed_cons_of_eq_some cs hc

theorem execAll?_append (a b : List Command) (ha : h.execAll? a = some h') :
    h.execAll? (a ++ b) = h'.execAll? b := feed_append_of_eq_some b ha

/-! ### devices after a change -/

theorem put_handles (p : Port) (d : Option Device) : (h.put p d).handles = h.handles := rfl

theorem put_device_self (p : Port) (d : Option Device) : (h.put p d).device p = d :=
  Function.update_self ..

theorem put_device_of_ne (p q : Port) (d : Option Device) (hq : q ≠ p) :
    (h.put p d).device q = h.device q := Function.update_of_ne hq ..

theorem put_put (p : Port) (d d' : Option Device) : (h.put p d).put p d' = h.put p d' := by
  simp only [put, Function.update_idem]

theorem put_same (p : Port) (d : Option Device) (hd : h.device p = d) : h.put p d = h := by
  subst hd
  simp only [put, Function.update_eq_self]

theorem reaches_host (name : String) : h.Reaches ⟨none, name⟩ := fun _ hn => nomatch hn

theorem reaches_netns (n name : String) (hn : n ∈ h.handles) : h.Reaches ⟨some n, name⟩ := by
  intro m hm
  obtain rfl := Option.some.inj hm
  exact hn

/-! ### changes that succeed -/

theorem exec?_pair {a b : Port} (hc : c.change? = some (.pair a b)) (ha : h.Reaches a)
    (hb : h.Reaches b) (hab : a ≠ b) (hfa : h.device a = none) (hfb : h.device b = none) :
    h.exec? c = some ((h.put a (some {})).put b (some {})) := by
  rw [exec?, hc, Option.bind_some, Change.apply?, if_pos ⟨ha, hb, hab, hfa, hfb⟩]

theorem exec?_raise {p : Port} {d : Device} (hc : c.change? = some (.raise p))
    (hd : h.device p = some d) (hp : h.Reaches p) :
    h.exec? c = some (h.put p (some { d with up := true })) := by
  rw [exec?, hc, Option.bind_some, Change.apply?, alter?, if_pos hp, hd, Option.map_some]

theorem exec?_address {p : Port} {addr : String} {d : Device}
    (hc : c.change? = some (.address p addr)) (hd : h.device p = some d) (hp : h.Reaches p) :
    h.exec? c = some (h.put p (some { d with address := some addr })) := by
  rw [exec?, hc, Option.bind_some, Change.apply?, alter?, if_pos hp, hd, Option.map_some]

theorem exec?_attach {device bridge : String} {d : Device}
    (hc : c.change? = some (.attach device bridge)) (hb : (h.device ⟨none, bridge⟩).isSome)
    (hd : h.device ⟨none, device⟩ = some d) :
    h.exec? c = some (h.put ⟨none, device⟩ (some { d with master := some bridge })) := by
  rw [exec?, hc, Option.bind_some, Change.apply?, if_pos hb, alter?, if_pos (reaches_host device),
    hd, Option.map_some]

theorem exec?_move {device netns : String} {d : Device} (hc : c.change? = some (.move device netns))
    (hn : netns ∈ h.handles) (hfree : h.device ⟨some netns, device⟩ = none)
    (hd : h.device ⟨none, device⟩ = some d) :
    h.exec? c = some ((h.put ⟨none, device⟩ none).put ⟨some netns, device⟩
      (some { d with up := false, master := none })) := by
  rw [exec?, hc, Option.bind_some, Change.apply?, if_pos ⟨hn, hfree⟩, hd, Option.map_some]

theorem exec?_release {netns : String} (hc : c.change? = some (.release netns))
    (hn : netns ∈ h.handles) :
    h.exec? c = some { h with handles := h.handles.erase netns } := by
  rw [exec?, hc, Option.bind_some, Change.apply?, if_pos hn]

end

end Net

end Netlab
