import Netlab.Compile.Phases
import Netlab.Proofs.Shell.Unquoted

/-!
# The arguments of a program that is run inside a node

The program call that enters a node is quoted word by word, but the arguments behind it are put
down as they are, with a space between two of them.  So a shell runs the program with these
arguments exactly if none of them needs quotes (`Topology.exec_words_iff`).  That is meant for any
shell: a text has no reading if there is a shell that would act upon a character in it.
-/

namespace Netlab

open Shell (Command Reader readLines? literal isInert joinWords)

namespace NodeKind

variable (kind : NodeKind) (name : String)

/-- What is put behind the program call that enters a node is read behind its words. -/
theorem read?_exec (line : String) :
    Reader.read? {} (kind.exec name line).text.toList
      = Reader.read? ⟨.bare, none, (kind.lead name).map literal, []⟩ line.toList := by
  have hlead : feed Reader.step {} (joinWords (kind.lead name) ++ " ").toList
      = some ⟨.bare, none, (kind.lead name).map literal, []⟩ := by
    cases kind <;> exact Reader.feed_joinWords_space [] [] _ _
  rw [exec, Command.text, String.toList_append, Reader.read?, feed_append_of_eq_some _ hlead]
  rfl

theorem nul_mem_exec_iff (line : String) :
    '\x00' ∈ (kind.exec name line).text.toList ↔ '\x00' ∈ name.toList ∨ '\x00' ∈ line.toList := by
  have hlead : '\x00' ∈ (joinWords (kind.lead name)).toList ↔ '\x00' ∈ name.toList := by
    rw [Shell.nul_mem_joinWords_iff]
    cases kind <;> simp [lead]
  rw [exec, Command.text, String.toList_append, String.toList_append, List.mem_append,
    List.mem_append, hlead]
  simp

end NodeKind

namespace Topology

/-- A program that is run inside a node gets the arguments that were given, and these only, exactly
if each of them is a word that needs no quotes, and the node is entered under its name at all. -/
theorem exec_words_iff (t : Topology) (name : String) (args : List String) (n : Node)
    (hnode : t.node? name = some n) (kind : NodeKind) (hkind : n.kind = .ok kind) :
    ∃ c, t.exec name args = .ok c ∧
      (readLines? c.text.toList = some [(kind.lead name ++ args).map literal] ↔
        '\x00' ∉ name.toList ∧ ∀ a ∈ args, isInert a.toList = true) := by
  have hexec : t.exec name args = .ok (kind.exec name (" ".intercalate args)) := by
    rw [exec, hnode]
    simp only [hkind, node?_name t name n hnode]
    rfl
  refine ⟨_, hexec, ?_⟩
  have hinert : '\x00' ∈ (" ".intercalate args).toList → ¬ ∀ a ∈ args, isInert a.toList = true := by
    intro hnul hargs
    obtain ⟨a, ha, hmem⟩ := (Shell.nul_mem_intercalate_iff args).mp hnul
    exact Shell.nul_not_mem_of_isInert _ (hargs a ha) hmem
  by_cases hnul : '\x00' ∈ (kind.exec name (" ".intercalate args)).text.toList
  · rw [Shell.readLines?_of_nul_mem _ hnul]
    refine iff_of_false (Option.some_ne_none _).symm fun h => ?_
    exact ((kind.nul_mem_exec_iff name _).mp hnul).elim h.1 fun hargs => hinert hargs h.2
  · have hfront : (kind.lead name).map literal ≠ [] := by
      cases kind <;> exact List.cons_ne_nil _ _
    rw [Shell.readLines?_of_nul_not_mem _ hnul, kind.read?_exec, List.map_append]
    rw [kind.nul_mem_exec_iff, not_or] at hnul
    rw [Reader.read_unquoted_iff _ hfront args hnul.2, and_iff_right hnul.1]

namespace Bench

/-- a namespace without links -/
def node : Node where
  name := "N1"
  type := some "netns"

def topology : Topology where
  nodes := [node]

end Bench

theorem exec_words_bench :
    Bench.topology.node? "N1" = some Bench.node ∧ Bench.node.kind = .ok .netns ∧
      ∃ c, Bench.topology.exec "N1" ["ping", "-c1", "10.0.0.2"] = .ok c ∧
        readLines? c.text.toList = some
          [["ip", "netns", "exec", "N1", "ping", "-c1", "10.0.0.2"].map literal] := by
  have hkind : Bench.node.kind = .ok .netns := by decide +kernel
  obtain ⟨c, hc, hwords⟩ :=
    exec_words_iff Bench.topology "N1" ["ping", "-c1", "10.0.0.2"] Bench.node rfl .netns hkind
  exact ⟨rfl, hkind, c, hc, hwords.mpr (by decide)⟩

/-- An argument of two lines: the shell that is called inside the node is given another command, and
the second line is run outside the node. -/
theorem exec_divides_argument :
    ∃ c, Bench.topology.exec "N1" ["sh", "-c", "ip addr\nip route"] = .ok c ∧
      readLines? c.text.toList = some
        [["ip", "netns", "exec", "N1", "sh", "-c", "ip", "addr"].map literal,
          ["ip", "route"].map literal] ∧
      readLines? c.text.toList ≠ some
        [(NodeKind.netns.lead "N1" ++ ["sh", "-c", "ip addr\nip route"]).map literal] :=
  ⟨_, rfl, by decide +kernel, by decide +kernel⟩

end Topology

end Netlab
