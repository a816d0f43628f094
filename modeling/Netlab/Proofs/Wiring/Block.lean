import Mathlib.Data.List.Basic
import Netlab.Link.Wiring

/-!
# What the block of a link holds

The block of a link makes the pair of devices that the link is, attaches it, and sets the address of
its own end.  Whatever else is in it is routine: devices come up, one moves into the node, and the
handle of the node may go.

* `Link.mem_commands`                a command of the block is one of these;
* `Link.filterMap_commands`          a reading to which the routine says nothing reads the pair and
                                     the address;
* `Link.filterMap_commands_pair`     or the pair alone.
-/

namespace Netlab

open Shell (Command)

namespace Link

/-- the command that makes a pair with one end in a node and the other, `p`, on the host -/
def hostPair (n i p : String) : Command :=
  .argv ["ip", "link", "add", i, "netns", n, "type", "veth", "peer", "name", p]

/-- the commands that make the pair of a link and attach it -/
def pairCommands (n i : String) : Link → List Command
  | direct peer j =>
    [.argv ["ip", "link", "add", i, "netns", n, "type", "veth", "peer", "name", j, "netns", peer]]
  | bridge switch => [hostPair n i (hostEnd switch n), Bridge.attach (hostEnd switch n) switch]
  | veth peer => [vethCreate i peer]
  | phys => []

/-- the commands of a block that neither make or attach a device nor set an address -/
inductive Routine (l : Link) (n i : String) : Command → Prop
  | up : Routine l n i (Netns.linkUp n i)
  | peerUp (peer j : String) (h : l = direct peer j) : Routine l n i (Netns.linkUp peer j)
  | hostUp (d : String) : Routine l n i (Host.linkUp d)
  | move : Routine l n i (.argv ["ip", "link", "set", "dev", i, "netns", n])
  | release : Routine l n i (Netns.delete n)

section
variable (l : Link) (n : String) (kind : NodeKind) (i : String) (addr : Option String)
  (handles : HandlePolicy)

theorem routine_of_mem_move (c : Command) (hc : c ∈ moveCommands n kind i handles) :
    l.Routine n i c := by
  rw [moveCommands, List.mem_append, List.mem_cons, List.mem_singleton] at hc
  obtain (rfl | rfl) | hc := hc
  · exact .move
  · exact .up
  · split at hc
    · obtain rfl := List.mem_singleton.mp hc
      exact .release
    · cases hc

theorem exists_of_mem_address (c : Command) (hc : c ∈ addressCommands n i addr) :
    ∃ a, c = Netns.setAddress n i a := by
  obtain ⟨a, _, rfl⟩ := List.mem_map.mp hc
  exact ⟨a, rfl⟩

theorem mem_commands (c : Command) (hc : c ∈ l.commands n kind i addr handles) :
    c ∈ l.pairCommands n i ∨ l.Routine n i c ∨ ∃ a, c = Netns.setAddress n i a := by
  have haddress := exists_of_mem_address n i (if l.losesAddress kind handles then none else addr) c
  cases l with
  | direct peer j =>
    obtain hc | hc := List.mem_append.mp hc
    · simp only [directCommands, List.mem_cons, List.not_mem_nil, or_false] at hc
      obtain rfl | rfl | rfl := hc
      · exact .inl (List.mem_singleton_self _)
      · exact .inr (.inl .up)
      · exact .inr (.inl (.peerUp peer j rfl))
    · exact .inr (.inr (haddress hc))
  | bridge switch =>
    obtain hc | hc := List.mem_append.mp hc
    · simp only [bridgeCommands, List.mem_cons, List.not_mem_nil, or_false] at hc
      obtain rfl | rfl | rfl | rfl := hc
      · exact .inl (List.mem_cons_self ..)
      · exact .inr (.inl .up)
      · exact .inr (.inl (.hostUp _))
      · exact .inl (List.mem_cons_of_mem _ (List.mem_singleton_self _))
    · exact .inr (.inr (haddress hc))
  | veth peer =>
    rw [commands, vethCommands, List.mem_append, List.mem_append, List.mem_cons,
      List.mem_singleton] at hc
    obtain ((rfl | hc) | hc) | rfl := hc
    · exact .inl (List.mem_singleton_self _)
    · exact .inr (.inl (routine_of_mem_move _ n kind i handles c hc))
    · exact .inr (.inr (haddress hc))
    · exact .inr (.inl (.hostUp peer))
  | phys =>
    obtain hc | hc := List.mem_append.mp hc
    · exact .inr (.inl (routine_of_mem_move _ n kind i handles c hc))
    · exact .inr (.inr (haddress hc))

/-! ## readings -/

variable {α : Type} (f : Command → Option α)

theorem filterMap_address (h : ∀ a, f (Netns.setAddress n i a) = none) :
    (addressCommands n i addr).filterMap f = [] := by
  refine List.filterMap_eq_nil_iff.mpr fun c hc => ?_
  obtain ⟨a, rfl⟩ := exists_of_mem_address n i addr c hc
  exact h a

theorem filterMap_commands (hroutine : ∀ c, l.Routine n i c → f c = none) :
    (l.commands n kind i addr handles).filterMap f
      = (l.pairCommands n i).filterMap f
        ++ (addressCommands n i
            (if l.losesAddress kind handles then none else addr)).filterMap f := by
  have hnil (cmds : List Command) (h : ∀ c ∈ cmds, l.Routine n i c) : cmds.filterMap f = [] :=
    List.filterMap_eq_nil_iff.mpr fun c hc => hroutine c (h c hc)
  have hmove := hnil _ (routine_of_mem_move l n kind i handles)
  have hup := hnil [Netns.linkUp n i] (List.forall_mem_singleton.mpr .up)
  cases l with
  | direct peer j =>
    have hpeer := hnil [Netns.linkUp peer j] (List.forall_mem_singleton.mpr (.peerUp peer j rfl))
    have hblock : directCommands n i peer j
        = (direct peer j).pairCommands n i ++ ([Netns.linkUp n i] ++ [Netns.linkUp peer j]) := rfl
    rw [commands, hblock, List.filterMap_append, List.filterMap_append, List.filterMap_append, hup,
      hpeer, List.append_nil, List.append_nil]
  | bridge switch =>
    have hhost := hnil [Host.linkUp (hostEnd switch n)] (List.forall_mem_singleton.mpr (.hostUp _))
    have hblock : bridgeCommands n i switch
        = [hostPair n i (hostEnd switch n)] ++ ([Netns.linkUp n i]
          ++ ([Host.linkUp (hostEnd switch n)] ++ [Bridge.attach (hostEnd switch n) switch])) := rfl
    rw [commands, hblock, List.filterMap_append, List.filterMap_append, List.filterMap_append,
      List.filterMap_append, hup, hhost, List.nil_append, List.nil_append, ← List.filterMap_append]
    rfl
  | veth peer =>
    have hhost := hnil [Host.linkUp peer] (List.forall_mem_singleton.mpr (.hostUp peer))
    rw [commands, vethCommands, ← List.singleton_append, List.filterMap_append,
      List.filterMap_append, List.filterMap_append, hmove, hhost, List.append_nil, List.append_nil]
    rfl
  | phys =>
    rw [commands, List.filterMap_append, hmove]
    rfl

theorem filterMap_commands_pair (hroutine : ∀ c, l.Routine n i c → f c = none)
    (haddress : ∀ a, f (Netns.setAddress n i a) = none) :
    (l.commands n kind i addr handles).filterMap f = (l.pairCommands n i).filterMap f := by
  rw [filterMap_commands l n kind i addr handles f hroutine, filterMap_address n i _ f haddress,
    List.append_nil]

end

end Link

end Netlab
