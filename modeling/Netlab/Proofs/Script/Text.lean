import Netlab.Proofs.Shell.Reader
import Netlab.Script.Render

/-!
# A script read back by a shell

The text of a script of program calls is read as those calls, word for word, whatever characters
the words hold, and whether or not there are comments in front of the sections.

* `feed_heading`, `feed_call`, `feed_section`   the pieces of the text, each read from a line start;
* `Script.nul_not_mem_text`                     a shell can be given the text;
* `Script.text_read_back`                       the property, of whole scripts.
-/

namespace Netlab

open Shell (Command Reader literal calls?)

namespace Shell

/-- the reader at the start of a line, behind the lines of given calls -/
def Reader.behind (calls : List (List String)) : Reader :=
  { lines := calls.map (·.map literal) }

/-- a program call that a shell can be given: it has words, and no word holds a NUL -/
def Command.IsCall (c : Command) : Prop :=
  ∃ words, c = .argv words ∧ words ≠ [] ∧ ∀ w ∈ words, '\x00' ∉ w.toList

end Shell

/-! ## pieces of a text -/

theorem Phase.tag_chars (p : Phase) : ∀ c ∈ p.tag.toList, c ≠ '\n' ∧ c ≠ '\x00' := by
  have hall : p.tag.toList.all (fun c => c != '\n' && c != '\x00') = true := by
    cases p <;> decide
  simpa only [List.all_eq_true, Bool.and_eq_true, bne_iff_ne] using hall

/-- a heading is a comment -/
theorem feed_heading (calls : List (List String)) (s : Section) :
    feed Reader.step (Reader.behind calls) s.heading.toList = some (Reader.behind calls) := by
  have htext : s.heading.toList = '#' :: ((' ' :: s.phase.tag.toList) ++ ['\n']) := by
    rw [Section.heading, String.toList_append, String.toList_append]
    rfl
  have hstart : (Reader.behind calls).step '#'
      = some { Reader.behind calls with mode := .comment } := rfl
  have htag : '\n' ∉ ' ' :: s.phase.tag.toList :=
    List.not_mem_cons_of_ne_of_not_mem (by decide) fun h => (s.phase.tag_chars _ h).1 rfl
  rw [htext, feed_cons_of_eq_some _ hstart,
    feed_append_of_eq_some _ (Reader.feed_comment _ rfl _ htag)]
  show some (Reader.endLine _) = _
  simp [Reader.endLine, Reader.endWord, Reader.behind]

theorem feed_call (calls : List (List String)) (c : Command) (hc : c.IsCall) :
    feed Reader.step (Reader.behind calls) (c.text ++ "\n").toList
      = some (Reader.behind (calls ++ c.words?.toList)) := by
  obtain ⟨words, rfl, hne, _⟩ := hc
  obtain ⟨w, ws, rfl⟩ := List.exists_cons_of_ne_nil hne
  have hline := Reader.feed_joinWords_newline [] (calls.map (·.map literal)) w ws
  rw [List.nil_append] at hline
  rw [Reader.behind, Command.text, hline, Command.words?, Option.toList_some, Reader.behind,
    List.map_append, List.map_singleton]

theorem feed_calls (calls : List (List String)) (cs : List Command) (hcs : ∀ c ∈ cs, c.IsCall) :
    feed Reader.step (Reader.behind calls) (String.join (cs.map (·.text ++ "\n"))).toList
      = some (Reader.behind (calls ++ cs.filterMap Command.words?)) := by
  induction cs generalizing calls with
  | nil =>
    rw [List.filterMap_nil, List.append_nil]
    rfl
  | cons c cs ih =>
    rw [List.forall_mem_cons] at hcs
    have hcalls : c.words?.toList ++ cs.filterMap Command.words?
        = (c :: cs).filterMap Command.words? := by
      rw [List.filterMap_cons]
      cases c.words? <;> rfl
    rw [List.map_cons, String.join_cons, String.toList_append,
      feed_append_of_eq_some _ (feed_call calls c hcs.1), ih _ hcs.2, List.append_assoc, hcalls]

theorem feed_section (annotate : Bool) (calls : List (List String)) (s : Section)
    (hs : ∀ c ∈ s.commands, c.IsCall) :
    feed Reader.step (Reader.behind calls) (s.text annotate).toList
      = some (Reader.behind (calls ++ s.commands.filterMap Command.words?)) := by
  rw [Section.text, String.toList_append]
  cases annotate with
  | false => exact feed_calls calls s.commands hs
  | true =>
    rw [if_pos rfl, feed_append_of_eq_some _ (feed_heading calls s)]
    exact feed_calls calls s.commands hs

theorem feed_sections (annotate : Bool) (calls : List (List String)) (sections : List Section)
    (hs : ∀ s ∈ sections, ∀ c ∈ s.commands, c.IsCall) :
    feed Reader.step (Reader.behind calls)
        (String.join (sections.map (Section.text annotate))).toList
      = some (Reader.behind
        (calls ++ (sections.flatMap (·.commands)).filterMap Command.words?)) := by
  induction sections generalizing calls with
  | nil =>
    rw [List.flatMap_nil, List.filterMap_nil, List.append_nil]
    rfl
  | cons s sections ih =>
    rw [List.forall_mem_cons] at hs
    rw [List.map_cons, String.join_cons, String.toList_append,
      feed_append_of_eq_some _ (feed_section annotate calls s hs.1), ih _ hs.2,
      List.flatMap_cons, List.filterMap_append, List.append_assoc]

/-! ## whole scripts -/

theorem Section.nul_not_mem_text (s : Section) (annotate : Bool) (hs : ∀ c ∈ s.commands, c.IsCall) :
    '\x00' ∉ (s.text annotate).toList := by
  have hheading : '\x00' ∉ s.heading.toList := by
    have htag : '\x00' ∉ s.phase.tag.toList := fun h => (s.phase.tag_chars _ h).2 rfl
    simp [Section.heading, htag]
  have hcall : ∀ c ∈ s.commands, '\x00' ∉ c.text.toList := by
    intro c hc hnul
    obtain ⟨words, rfl, _, hwords⟩ := hs c hc
    obtain ⟨w, hw, hmem⟩ := (Shell.nul_mem_joinWords_iff words).mp hnul
    exact hwords w hw hmem
  rw [Section.text, String.toList_append, List.mem_append, String.toList_join, not_or]
  refine ⟨?_, fun h => ?_⟩
  · cases annotate with
    | false => exact List.not_mem_nil
    | true => exact hheading
  · obtain ⟨line, hline, hnul⟩ := List.mem_flatMap.mp h
    obtain ⟨c, hc, rfl⟩ := List.mem_map.mp hline
    rw [String.toList_append, List.mem_append] at hnul
    exact hnul.elim (hcall c hc) (by decide)

theorem Script.nul_not_mem_text (s : Script) (annotate : Bool)
    (hs : ∀ sec ∈ s.sections, ∀ c ∈ sec.commands, c.IsCall) :
    '\x00' ∉ (s.text annotate).toList := by
  rw [Script.text, String.toList_join]
  intro h
  obtain ⟨text, htext, hnul⟩ := List.mem_flatMap.mp h
  obtain ⟨sec, hsec, rfl⟩ := List.mem_map.mp htext
  exact sec.nul_not_mem_text annotate (hs sec hsec) hnul

/-- the lines of a text that is read up to a line start -/
theorem read?_of_feed_behind (text : List Char) (calls : List (List String))
    (h : feed Reader.step {} text = some (Reader.behind calls)) :
    Reader.read? {} text = some (calls.map (·.map literal)) := by
  rw [Reader.read?, h, Option.bind_some]
  show some (Reader.endLine _).lines = _
  simp [Reader.endLine, Reader.endWord, Reader.behind]

/-- **A text script survives the shell.**  The text of a script of program calls is read as those
calls in their order, every word as it is: no character of a word is acted upon, and a heading is
not read at all. -/
theorem Script.text_read_back (s : Script) (annotate : Bool) (hs : ∀ c ∈ s.commands, c.IsCall)
    (env : String → String) :
    calls? env (s.text annotate) = some (s.commands.filterMap Command.words?) := by
  have hsections : ∀ sec ∈ s.sections, ∀ c ∈ sec.commands, c.IsCall :=
    fun sec hsec c hc => hs c (List.mem_flatMap.mpr ⟨sec, hsec, hc⟩)
  refine Shell.calls?_of_readLines? env _ _ ?_
  rw [Shell.readLines?_of_nul_not_mem _ (s.nul_not_mem_text annotate hsections)]
  exact read?_of_feed_behind _ _ (feed_sections annotate [] s.sections hsections)

/-- a script whose words are blank, empty, quotes, comments, expansions and line breaks -/
def awkward : Script where
  sections :=
    [ ⟨.precmd, [.argv ["a b", "", "it's", "#net0"], .argv ["C1#net0", "\\", "$PID;`ls`"]]⟩,
      ⟨.delete, []⟩,
      ⟨.exec, [.argv ["line\nline", "'", "\t*", "\"~\"", "äö=1"]]⟩ ]

theorem awkward_read_back :
    (∀ c ∈ awkward.commands, c.IsCall) ∧ ∀ annotate,
      calls? (fun _ => "") (awkward.text annotate)
        = some [ ["a b", "", "it's", "#net0"], ["C1#net0", "\\", "$PID;`ls`"],
            ["line\nline", "'", "\t*", "\"~\"", "äö=1"] ] := by
  have hcalls : ∀ c ∈ awkward.commands, c.IsCall := by
    intro c hc
    simp only [awkward, Script.commands, List.flatMap_cons, List.flatMap_nil, List.append_nil,
      List.nil_append, List.cons_append, List.mem_cons, List.not_mem_nil, or_false] at hc
    obtain rfl | rfl | rfl := hc <;> exact ⟨_, rfl, List.cons_ne_nil _ _, by decide⟩
  exact ⟨hcalls, fun annotate => Script.text_read_back awkward annotate hcalls _⟩

end Netlab
