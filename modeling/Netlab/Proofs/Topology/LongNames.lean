import Netlab.Proofs.Grammar
import Netlab.Proofs.Wiring.Attachments
import Netlab.Proofs.Wiring.HostEnds
import Netlab.Topology.LongNames

/-!
# Names that are too long for a device

The warning about long names takes type and arguments of an interface as they are written, but
wiring trims them.  So the warning names what wiring uses exactly where trimming makes no difference
to a long name (`Topology.long_names_iff`).

* `Link.parse_eq_bridge_iff`      which interfaces attach to a switch, and to which;
* `Interface.longNames_eq_iff`    when the long names of an interface are told as they are used;
* `Topology.mem_hostEndsMade_iff` the host ends that wiring makes;
* `Topology.spaced_type_unreported` a host end that is too long and not told.
-/

namespace Netlab

/-! ## trimming -/

namespace Text

theorem exists_append_trim (s : String) : ∃ front back : String, s = front ++ trim s ++ back := by
  have hstart : s.toList = s.toList.takeWhile isBlank ++ trimStart s.toList :=
    List.takeWhile_append_dropWhile.symm
  have hend (cs : List Char) : cs = trimEnd cs ++ (cs.reverse.takeWhile isBlank).reverse := by
    rw [trimEnd, ← List.reverse_append, List.takeWhile_append_dropWhile, List.reverse_reverse]
  refine ⟨String.ofList (s.toList.takeWhile isBlank),
    String.ofList ((trimStart s.toList).reverse.takeWhile isBlank).reverse, ?_⟩
  rw [← String.toList_inj, String.toList_append, String.toList_append, String.toList_ofList,
    String.toList_ofList, trim_toList, List.append_assoc, ← hend, ← hstart]

theorem utf8ByteSize_trim_le (s : String) : (trim s).utf8ByteSize ≤ s.utf8ByteSize := by
  obtain ⟨front, back, hs⟩ := exists_append_trim s
  have hsize := congrArg String.utf8ByteSize hs
  rw [String.utf8ByteSize_append, String.utf8ByteSize_append] at hsize
  omega

end Text

/-! ## attachments -/

theorem Link.parse_eq_bridge_iff (node : String) (i : Interface) (switch : String) :
    Link.parse node i = .ok (.bridge switch) ↔
      Text.trim i.type = "bridge" ∧ Text.trim (i.args.getD "") = switch ∧ switch ≠ "" :=
  (Link.parse_eq_ok_iff node i _).trans (Link.written_bridge_iff _ _ switch)

theorem Link.hostEnd_inj (switch switch' node : String) :
    hostEnd switch node = hostEnd switch' node ↔ switch = switch' := by
  constructor
  · intro h
    have hchars := congrArg String.toList h
    simp only [hostEnd, String.toList_append] at hchars
    exact String.toList_inj.mp (List.append_cancel_right (List.append_cancel_right hchars))
  · intro h
    rw [h]

/-- a name that is too long once it is trimmed was so before -/
theorem isLongName_of_trim (args node : String)
    (h : isLongName (Link.hostEnd (Text.trim args) node) = true) :
    isLongName (Link.hostEnd args node) = true := by
  have hsize := Text.utf8ByteSize_trim_le args
  simp only [isLongName, Link.hostEnd, String.utf8ByteSize_append, decide_eq_true_eq] at h ⊢
  omega

namespace Interface

/-- the switch that an interface attaches to -/
def switch? (node : String) (i : Interface) : Option String :=
  match Link.parse node i with
  | .ok (.bridge switch) => some switch
  | _ => none

/-- the device names that wiring gives to the ends of an interface -/
def usedNames (node : String) (i : Interface) : List String :=
  i.name :: ((i.switch? node).map (Link.hostEnd · node)).toList

/-- Trimming makes no difference to a name that is too long: the switch in such a name is written
without blank characters around it, and so is the type of the interface. -/
def Trimmed (node : String) (i : Interface) : Prop :=
  (i.type = "bridge" → ∀ args, i.args = some args → isLongName (Link.hostEnd args node) = true →
    args ≠ "" ∧ Text.trim args = args) ∧
  (i.type ≠ "bridge" → ∀ switch, i.switch? node = some switch →
    isLongName (Link.hostEnd switch node) = false)

theorem switch?_eq_some_iff (node : String) (i : Interface) (switch : String) :
    i.switch? node = some switch ↔ Link.parse node i = .ok (.bridge switch) := by
  rw [switch?]
  split
  · next s hparse => rw [hparse, Option.some.injEq, Except.ok.injEq, Link.bridge.injEq]
  · next hother => exact iff_of_false nofun (hother switch)

/-- the switch of an interface whose type is written as it is meant -/
theorem switch?_of_bridge (node : String) (i : Interface) (htype : i.type = "bridge") :
    i.switch? node
      = i.args.bind fun args => if Text.trim args = "" then none else some (Text.trim args) := by
  have htrim : Text.trim "bridge" = "bridge" := by decide +kernel
  have hblank : Text.trim "" = "" := by decide +kernel
  refine Option.ext fun switch => ?_
  rw [switch?_eq_some_iff, Link.parse_eq_bridge_iff, htype, and_iff_right htrim]
  cases i.args with
  | none => exact iff_of_false (fun h => h.2 (h.1.symm.trans hblank)) nofun
  | some args =>
    rw [Option.bind_some, Option.getD_some]
    split
    · next hempty => exact iff_of_false (fun h => h.2 (h.1.symm.trans hempty)) nofun
    · next hset =>
      rw [Option.some.injEq]
      exact ⟨fun h => h.1, fun h => ⟨h, h ▸ hset⟩⟩

/-- where the type is written as it is meant, it is the arguments that trimming must not change -/
theorem longHostEnds_eq_iff (node args : String) :
    [Link.hostEnd args node].filter isLongName
        = ((if Text.trim args = "" then none else some (Text.trim args)).map
            (Link.hostEnd · node)).toList.filter isLongName
      ↔ (isLongName (Link.hostEnd args node) = true → args ≠ "" ∧ Text.trim args = args) := by
  by_cases hlong : isLongName (Link.hostEnd args node) = true
  · rw [imp_iff_right hlong, List.filter_cons_of_pos hlong, List.filter_nil]
    by_cases hempty : Text.trim args = ""
    · rw [if_pos hempty, hempty]
      exact iff_of_false (List.cons_ne_nil _ _) fun h => h.1 h.2.symm
    · rw [if_neg hempty, Option.map_some, Option.toList_some, List.filter_cons, List.filter_nil]
      split
      · rw [List.cons.injEq, and_iff_left rfl, Link.hostEnd_inj, eq_comm]
        exact ⟨fun h => ⟨h ▸ hempty, h⟩, fun h => h.2⟩
      · next hshort => exact iff_of_false (List.cons_ne_nil _ _) fun h => hshort (h.2.symm ▸ hlong)
  · have hshort : ¬ isLongName (Link.hostEnd (Text.trim args) node) = true :=
      fun h => hlong (isLongName_of_trim args node h)
    rw [List.filter_cons_of_neg hlong, List.filter_nil]
    refine iff_of_true ?_ (absurd · hlong)
    split
    · rfl
    · rw [Option.map_some, Option.toList_some, List.filter_cons_of_neg hshort, List.filter_nil]

/-- the host ends of an interface that are told as too long are those that wiring uses, exactly if
trimming makes no difference to a long name -/
theorem longHostEnds_eq_iff_trimmed (node : String) (i : Interface) :
    (i.deviceNames node).tail.filter isLongName = (i.usedNames node).tail.filter isLongName
      ↔ i.Trimmed node := by
  rw [deviceNames, usedNames, List.tail_cons, List.tail_cons]
  by_cases htype : i.type = "bridge"
  · rw [if_pos htype, switch?_of_bridge node i htype, Trimmed, and_iff_left (absurd htype ·),
      imp_iff_right htype]
    cases i.args with
    | none => simp
    | some args => simpa using longHostEnds_eq_iff node args
  · rw [if_neg htype, Trimmed, and_iff_right (absurd · htype), imp_iff_right htype, List.filter_nil,
      eq_comm]
    cases i.switch? node with
    | none => simp
    | some switch => simp [List.filter_cons]

theorem longNames_eq_iff (node : String) (i : Interface) :
    (i.deviceNames node).filter isLongName = (i.usedNames node).filter isLongName
      ↔ i.Trimmed node := by
  rw [← longHostEnds_eq_iff_trimmed, deviceNames, usedNames, List.filter_cons, List.filter_cons,
    List.tail_cons, List.tail_cons]
  split
  · rw [List.cons.injEq, and_iff_right rfl]
  · rfl

/-- a long name is told for the host end of an interface if wiring uses it -/
theorem mem_longHostEnds_iff (node : String) (i : Interface) (h : i.Trimmed node) (name : String)
    (hlong : isLongName name = true) : name ∈ (i.deviceNames node).tail ↔
      ∃ switch, i.switch? node = some switch ∧ name = Link.hostEnd switch node := by
  have htold := congrArg (name ∈ ·) ((longHostEnds_eq_iff_trimmed node i).mpr h)
  simp only [List.mem_filter, hlong, and_true] at htold
  rw [htold, usedNames, List.tail_cons, Option.mem_toList, Option.map_eq_some_iff]
  exact exists_congr fun switch => and_congr_right fun _ => eq_comm

end Interface

namespace Topology

/-! ## names of a topology -/

/-- the device names that wiring uses, and those of the switches -/
def usedNames (t : Topology) : List String :=
  t.nodes.flatMap (fun n => n.interfaces.flatMap (·.usedNames n.name)) ++ t.switches.map (·.name)

theorem longNames_of_trimmed (t : Topology)
    (h : ∀ n ∈ t.nodes, ∀ i ∈ n.interfaces, i.Trimmed n.name) :
    t.longNames = t.usedNames.filter isLongName := by
  rw [longNames, deviceNames, usedNames, List.filter_append, List.filter_append,
    List.filter_flatMap, List.filter_flatMap]
  congr 1
  refine List.flatMap_congr fun n hn => ?_
  rw [List.filter_flatMap, List.filter_flatMap]
  refine List.flatMap_congr fun i hi => ?_
  exact (i.longNames_eq_iff n.name).mpr (h n hn i hi)

/-- wiring makes the host end of an interface if the node can be created, and no other -/
theorem mem_hostEndsMade_iff (t : Topology) (handles : HandlePolicy) (name : String) :
    name ∈ hostEndsMade (t.wireLinks handles).commands ↔
      ∃ n ∈ t.nodes, (∃ kind, n.creatable = .ok kind) ∧ ∃ i ∈ n.interfaces, ∃ switch,
        i.switch? n.name = some switch ∧ name = Link.hostEnd switch n.name := by
  have hmade : name ∈ hostEndsMade (t.wireLinks handles).commands
      ↔ name ∈ (t.wiredAfter handles {} t.sites).hostEnds := by
    rw [hostEndsMade_wireLinks, List.mem_reverse]
  rw [hmade, mem_hostEnds_wiredAfter]
  constructor
  · rintro (hnone | ⟨s, hs, node, switch, hattaches, hname⟩)
    · cases hnone
    · cases s with
      | lost e => exact hattaches.elim
      | live n kind i =>
        obtain ⟨rfl, hlink⟩ := hattaches
        obtain ⟨hn, hk, hi⟩ := (t.mem_sites_live n kind i).mp hs
        exact ⟨n, hn, ⟨kind, hk⟩, i, hi, switch, (i.switch?_eq_some_iff ..).mpr hlink, hname⟩
  · rintro ⟨n, hn, ⟨kind, hk⟩, i, hi, switch, hswitch, hname⟩
    refine Or.inr ⟨.live n kind i, (t.mem_sites_live n kind i).mpr ⟨hn, hk, hi⟩, n.name, switch, ?_⟩
    exact ⟨⟨rfl, (i.switch?_eq_some_iff ..).mp hswitch⟩, hname⟩

/-- **Which long names are told.**  The names of an interface that are told as too long are the long
ones among its name and the host end that wiring uses for it, exactly if trimming makes no
difference to a long name.  Where that is so of every interface, the names told are the long ones
among all that wiring uses, in declaration order, and those told of host ends of nodes that can be
created are the ones that wiring makes. -/
theorem long_names_iff (t : Topology) :
    (∀ n ∈ t.nodes, ∀ i ∈ n.interfaces,
      (i.deviceNames n.name).filter isLongName = (i.usedNames n.name).filter isLongName
        ↔ i.Trimmed n.name) ∧
    ((∀ n ∈ t.nodes, ∀ i ∈ n.interfaces, i.Trimmed n.name) →
      t.longNames = t.usedNames.filter isLongName ∧
      ∀ handles name, isLongName name = true →
        (name ∈ hostEndsMade (t.wireLinks handles).commands ↔
          ∃ n ∈ t.nodes, (∃ kind, n.creatable = .ok kind) ∧ ∃ i ∈ n.interfaces,
            name ∈ (i.deviceNames n.name).tail)) := by
  refine ⟨fun n _ i _ => i.longNames_eq_iff n.name, fun htrimmed => ?_⟩
  refine ⟨t.longNames_of_trimmed htrimmed, fun handles name hlong => ?_⟩
  rw [mem_hostEndsMade_iff]
  refine exists_congr fun n => and_congr_right fun hn => and_congr_right fun _ => ?_
  refine exists_congr fun i => and_congr_right fun hi => ?_
  exact (i.mem_longHostEnds_iff n.name (htrimmed n hn i hi) name hlong).symm

namespace LongName

/-- a node whose host end has 24 bytes; `type` is that of its interface -/
def node (type : String) : Node where
  name := "router-with-long-name"
  type := some "netns"
  interfaces := [{ name := "net0", type := type, args := some "B0" }]

def topology (type : String) : Topology where
  nodes := [node type]
  switches := [{ name := "B0" }]

end LongName

theorem long_names_told :
    (∀ n ∈ (LongName.topology "bridge").nodes, ∀ i ∈ n.interfaces, i.Trimmed n.name) ∧
      (LongName.topology "bridge").longNames
        = (LongName.topology "bridge").usedNames.filter isLongName ∧
      (LongName.topology "bridge").longNames = ["B0-router-with-long-name"] ∧
      "B0-router-with-long-name"
        ∈ hostEndsMade ((LongName.topology "bridge").wireLinks .keep).commands := by
  have hinterface : Interface.Trimmed "router-with-long-name"
      { name := "net0", type := "bridge", args := some "B0" } := by
    refine ⟨fun _ args hargs _ => ?_, fun h => absurd rfl h⟩
    obtain rfl := Option.some.inj hargs
    exact ⟨by decide, by decide +kernel⟩
  have htrimmed :
      ∀ n ∈ (LongName.topology "bridge").nodes, ∀ i ∈ n.interfaces, i.Trimmed n.name := by
    intro n hn i hi
    obtain rfl := List.mem_singleton.mp hn
    obtain rfl := List.mem_singleton.mp hi
    exact hinterface
  obtain ⟨_, hall⟩ := long_names_iff (LongName.topology "bridge")
  obtain ⟨htold, hmade⟩ := hall htrimmed
  refine ⟨htrimmed, htold, by decide +kernel, (hmade .keep _ (by decide)).mpr ?_⟩
  exact ⟨LongName.node "bridge", List.mem_singleton_self _, ⟨.netns, by decide +kernel⟩, _,
    List.mem_singleton_self _, List.mem_singleton_self _⟩

/-- A blank character behind the type: the link is wired and nothing is told of its host end. -/
theorem spaced_type_unreported : (LongName.topology "bridge ").validate = .ok () ∧
    (LongName.topology "bridge ").usedNames.filter isLongName = ["B0-router-with-long-name"] ∧
    hostEndsMade ((LongName.topology "bridge ").wireLinks .keep).commands
      = ["B0-router-with-long-name"] ∧
    (LongName.topology "bridge ").longNames = [] := by
  decide +kernel

end Topology

end Netlab
