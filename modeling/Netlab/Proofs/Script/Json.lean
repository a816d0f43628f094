import Netlab.Proofs.Json.Reader
import Netlab.Script.Render

/-!
# A script read back from its JSON form

The JSON form of a script holds its sections, each with a tag and with commands of three forms.
From what it holds the text form can be made line by line, with the tags as they stand in the JSON.

* `Tagged.ofJson?`                  a section as a JSON value tells it;
* `Section.ofJson?_toValue`         it is told as it is;
* `Script.json_tells_text`          the property, of whole scripts.
-/

namespace Netlab

open Shell (Command)

/-! ## commands -/

def Value.text? : Value → Option String
  | .text s => some s
  | _ => none

def Value.texts? : Value → Option (List String)
  | .list vs => vs.mapM Value.text?
  | _ => none

/-- A command in JSON is a record of one field, whose name tells its form. -/
def Shell.Command.ofJson? : Value → Option Command
  | .record [("argv", words)] => words.texts?.map .argv
  | .record [("prefixed", .record [("prefix", lead), ("cmd", line)])] => do
    return .within (← lead.texts?) (← line.text?)
  | .record [("shell", line)] => line.text?.map .shell
  | _ => none

theorem texts?_list (words : List String) : (Value.list (words.map .text)).texts? = some words :=
  mapM_map_eq_self Value.text Value.text? (fun _ => rfl) words

theorem Shell.Command.ofJson?_toValue (c : Command) : Command.ofJson? c.toValue = some c := by
  cases c with
  | argv words =>
    show (Value.list (words.map .text)).texts?.map Command.argv = _
    rw [texts?_list]
    rfl
  | within lead line =>
    show (do return Command.within (← (Value.list (lead.map .text)).texts?) line) = _
    rw [texts?_list]
    rfl
  | shell line => rfl

/-! ## sections -/

/-- a section under a tag that need not be that of a phase -/
structure Tagged where
  tag : String
  commands : List Command

def Tagged.ofJson? : Value → Option Tagged
  | .record [("phase", .text tag), ("commands", .list vs)] => do
    return ⟨tag, ← vs.mapM Command.ofJson?⟩
  | _ => none

def Tagged.section? (t : Tagged) : Option Section :=
  (Phase.ofTag? t.tag).map fun phase => ⟨phase, t.commands⟩

/-- the lines of a section, with its tag in front if that is asked for -/
def Tagged.lines (annotate : Bool) (t : Tagged) : List String :=
  (if annotate then ["# " ++ t.tag] else []) ++ t.commands.map (·.text)

/-- a section as JSON has it -/
def Section.tagged (s : Section) : Tagged := ⟨s.phase.key, s.commands⟩

/-- the two ways to a tag agree -/
theorem Phase.key_eq_tag (p : Phase) : p.key = p.tag := by cases p <;> decide

theorem Section.ofJson?_toValue (s : Section) : Tagged.ofJson? s.toValue = some s.tagged := by
  have hcommands : (s.commands.map (·.toValue)).mapM Command.ofJson? = some s.commands :=
    mapM_map_eq_self _ _ Command.ofJson?_toValue s.commands
  show (do return ⟨s.phase.key, ← (s.commands.map (·.toValue)).mapM Command.ofJson?⟩ : Option Tagged)
    = _
  rw [hcommands]
  rfl

theorem Section.section?_tagged (s : Section) : s.tagged.section? = some s := by
  rw [tagged, Tagged.section?, s.phase.key_eq_tag, s.phase.ofTag?_tag]
  rfl

theorem Section.lines_tagged (annotate : Bool) (s : Section) :
    String.join ((s.tagged.lines annotate).map (· ++ "\n")) = s.text annotate := by
  rw [text, heading, ← s.phase.key_eq_tag, Tagged.lines, tagged, List.map_append, List.map_map,
    String.join_append]
  cases annotate with
  | false => rfl
  | true =>
    have hheading :
        String.join (["# " ++ s.phase.key].map (· ++ "\n")) = "# " ++ s.phase.key ++ "\n" :=
      String.empty_append
    rw [if_pos rfl, if_pos rfl, hheading]
    rfl

/-! ## scripts -/

theorem Shell.Command.spelled_toValue (c : Command) : Json.Spelled c.toValue := by
  have htexts (words : List String) : Json.Spelled (.list (words.map .text)) := by
    refine .list _ fun v hv => ?_
    obtain ⟨w, _, rfl⟩ := List.mem_map.mp hv
    exact .text w
  cases c with
  | argv words => exact .record _ (List.forall_mem_singleton.mpr (htexts words))
  | within lead line =>
    refine .record _ (List.forall_mem_singleton.mpr (.record _ ?_))
    exact List.forall_mem_cons.mpr ⟨htexts lead, List.forall_mem_singleton.mpr (.text line)⟩
  | shell line => exact .record _ (List.forall_mem_singleton.mpr (.text line))

theorem Section.spelled_toValue (s : Section) : Json.Spelled s.toValue := by
  refine .record _ (List.forall_mem_cons.mpr ⟨.text _, List.forall_mem_singleton.mpr (.list _ ?_)⟩)
  intro v hv
  obtain ⟨c, _, rfl⟩ := List.mem_map.mp hv
  exact c.spelled_toValue

namespace Script

theorem spelled_toValue (s : Script) : Json.Spelled s.toValue := by
  refine .record _ (List.forall_mem_singleton.mpr (.list _ fun v hv => ?_))
  obtain ⟨x, _, rfl⟩ := List.mem_map.mp hv
  exact x.spelled_toValue

theorem lines_tagged (annotate : Bool) (sections : List Section) :
    String.join (((sections.map Section.tagged).flatMap (Tagged.lines annotate)).map (· ++ "\n"))
      = String.join (sections.map (Section.text annotate)) := by
  induction sections with
  | nil => rfl
  | cons x sections ih =>
    rw [List.map_cons, List.flatMap_cons, List.map_append, String.join_append, x.lines_tagged, ih,
      List.map_cons, String.join_cons]

/-- **JSON and text tell the same script.**  Whatever its commands hold, the JSON form of a script
is a record with the one field `phases`, a list of sections, each with its tag and its commands.
These are the sections of the script, and written line by line, with the tags that stand in the
JSON, they are its text form, with headings or without, which the JSON form does not depend on. -/
theorem json_tells_text (s : Script) :
    (∀ a b, s.render a .json = s.render b .json) ∧
    ∃ (values : List Value) (told : List Tagged),
      (∀ a, Json.read? (s.render a .json) = some (.record [("phases", .list values)])) ∧
      values.mapM Tagged.ofJson? = some told ∧
      told.mapM Tagged.section? = some s.sections ∧
      ∀ annotate, String.join ((told.flatMap (Tagged.lines annotate)).map (· ++ "\n"))
        = s.render annotate .text := by
  refine ⟨fun _ _ => rfl, s.sections.map (·.toValue), s.sections.map Section.tagged, ?_, ?_, ?_, ?_⟩
  · exact fun _ => Json.read?_json s.toValue s.spelled_toValue
  · have htold : Tagged.ofJson? ∘ Section.toValue = fun x => pure x.tagged :=
      funext Section.ofJson?_toValue
    rw [List.mapM_map, htold]
    exact List.mapM_pure
  · exact mapM_map_eq_self _ _ Section.section?_tagged s.sections
  · exact fun annotate => lines_tagged annotate s.sections

end Script

end Netlab
