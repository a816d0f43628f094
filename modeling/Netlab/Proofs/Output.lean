import Netlab.Cli.Program
import Netlab.Proofs.Files
import Netlab.Proofs.Preflight

/-!
# All of the output or nothing

A run of the program either fails before anything is written, and then leaves everything as it was,
or has one text to write, and then the standard output and a file are two places for the same text.

* `Topology.load_eq_ok_iff`     which files hold a topology;
* `Cli.Invocation.Fails`        what can go wrong before there is anything to write;
* `Cli.Invocation.fails_iff`    it is what the answer of the program tells of;
* `Cli.run_all_or_nothing`      the property, of runs.
-/

namespace Netlab

/-! ## loading -/

theorem mapError_eq_ok {ε ε' α : Type} (x : Except ε α) (g : ε → ε') (a : α) :
    x.mapError g = .ok a ↔ x = .ok a := by
  cases x with
  | error e => exact ⟨nofun, nofun⟩
  | ok b => simp only [Except.mapError, Except.ok.injEq]

namespace Topology

theorem parse_eq_ok_iff (text : String) (t : Topology) :
    parse text = .ok t ↔ read text = .ok t ∧ t.validate = .ok () := by
  rw [parse, bind_eq_ok]
  constructor
  · rintro ⟨t', hread, h⟩
    obtain ⟨_, hvalid, h⟩ := (bind_eq_ok _ _ _).mp h
    obtain rfl := Except.ok.inj h
    exact ⟨hread, (mapError_eq_ok ..).mp hvalid⟩
  · rintro ⟨hread, hvalid⟩
    exact ⟨t, hread, (bind_eq_ok _ _ _).mpr ⟨(), (mapError_eq_ok ..).mpr hvalid, rfl⟩⟩

theorem load_eq_ok_iff (path : String) (content : Except FileError ByteArray) (t : Topology) :
    load path content = .ok t ↔
      ∃ text, fileText content = .ok text ∧ read text = .ok t ∧ t.validate = .ok () := by
  rw [load, bind_eq_ok]
  simp only [mapError_eq_ok, parse_eq_ok_iff]

end Topology

/-! ## failures -/

namespace Cli

namespace Invocation

section
variable (i : Invocation) (files : FileTree)

/-- what can go wrong before there is anything to write -/
inductive Fails : Prop
  | reading (hconfig : i.readsConfig = true) (e : FileError)
      (h : fileText (files.read i.config) = .error e)
  | decoding (hconfig : i.readsConfig = true) (text : String)
      (htext : fileText (files.read i.config) = .ok text) (e : ParseError)
      (h : Topology.read text = .error e)
  | validation (hconfig : i.readsConfig = true) (text : String)
      (htext : fileText (files.read i.config) = .ok text) (t : Topology)
      (hread : Topology.read text = .ok t) (e : ValidationError) (h : t.validate = .error e)
  | compilation (r : Request) (htask : i.task = .script r) (t : Topology)
      (hload : Topology.load i.config (files.read i.config) = .ok t) (e : CompileError)
      (h : t.script i.options r = .error e)
  | check (htask : i.task = .check) (t : Topology)
      (hload : Topology.load i.config (files.read i.config) = .ok t)
      (h : (t.check i.options).passed = false)

/-- a topology that is needed is there, unless reading, decoding or validation fails -/
theorem load_of_not_fails (hconfig : i.readsConfig = true) (h : ¬ i.Fails files) :
    ∃ t, Topology.load i.config (files.read i.config) = .ok t := by
  cases htext : fileText (files.read i.config) with
  | error e => exact absurd (.reading hconfig e htext) h
  | ok text =>
    cases hread : Topology.read text with
    | error e => exact absurd (.decoding hconfig text htext e hread) h
    | ok t =>
      cases hvalid : t.validate with
      | error e => exact absurd (.validation hconfig text htext t hread e hvalid) h
      | ok _ => exact ⟨t, (Topology.load_eq_ok_iff ..).mpr ⟨text, htext, hread, hvalid⟩⟩

/-! ## the answer of the program -/

variable (content : Except FileError ByteArray)

theorem respond_of_load_error (hconfig : i.readsConfig = true) (e : LoadError)
    (h : Topology.load i.config content = .error e) :
    (i.respond content).result = .error (.load e) := by
  cases htask : i.task with
  | script r => simp only [respond, htask, h]
  | check => simp only [respond, htask, h]
  | status all => simp [readsConfig, htask] at hconfig
  | sample => simp [readsConfig, htask] at hconfig

theorem respond_script (r : Request) (htask : i.task = .script r) (t : Topology)
    (h : Topology.load i.config content = .ok t) :
    (i.respond content).result = (i.respondScript t r).result := by
  simp only [respond, htask, h]

theorem respond_check (htask : i.task = .check) (t : Topology)
    (h : Topology.load i.config content = .ok t) :
    (i.respond content).result = (i.respondCheck t).result := by
  simp only [respond, htask, h]

theorem respond_of_not_loaded (hconfig : i.readsConfig = true)
    (h : ∀ t, Topology.load i.config content ≠ .ok t) :
    ∃ f, (i.respond content).result = .error f := by
  cases hload : Topology.load i.config content with
  | error e => exact ⟨_, i.respond_of_load_error content hconfig e hload⟩
  | ok t => exact absurd hload (h t)

theorem respond_of_fails (h : i.Fails files) :
    ∃ f, (i.respond (files.read i.config)).result = .error f := by
  cases h with
  | reading hconfig e h =>
    refine i.respond_of_not_loaded _ hconfig fun t hload => ?_
    obtain ⟨text, htext, -, -⟩ := (Topology.load_eq_ok_iff ..).mp hload
    rw [h] at htext
    cases htext
  | decoding hconfig text htext e h =>
    refine i.respond_of_not_loaded _ hconfig fun t hload => ?_
    obtain ⟨text', htext', hread, -⟩ := (Topology.load_eq_ok_iff ..).mp hload
    obtain rfl := Except.ok.inj (htext.symm.trans htext')
    rw [h] at hread
    cases hread
  | validation hconfig text htext t hread e h =>
    refine i.respond_of_not_loaded _ hconfig fun t' hload => ?_
    obtain ⟨text', htext', hread', hvalid⟩ := (Topology.load_eq_ok_iff ..).mp hload
    obtain rfl := Except.ok.inj (htext.symm.trans htext')
    obtain rfl := Except.ok.inj (hread.symm.trans hread')
    rw [h] at hvalid
    cases hvalid
  | compilation r htask t hload e h =>
    refine ⟨.compile i.config e, ?_⟩
    rw [i.respond_script _ r htask t hload]
    simp only [respondScript, h]
  | check htask t hload h =>
    refine ⟨.check, ?_⟩
    rw [i.respond_check _ htask t hload, respondCheck_result, h]
    rfl

/-- where nothing fails, a check has nothing to write and everything else has -/
theorem respond_of_not_fails (h : ¬ i.Fails files) :
    (i.task = .check ∧ (i.respond (files.read i.config)).result = .ok none) ∨
      (i.task ≠ .check ∧ ∃ text, (i.respond (files.read i.config)).result = .ok (some text)) := by
  cases htask : i.task with
  | script r =>
    obtain ⟨t, hload⟩ := i.load_of_not_fails files (by rw [readsConfig, htask]) h
    cases hscript : t.script i.options r with
    | error e => exact absurd (.compilation r htask t hload e hscript) h
    | ok s =>
      refine Or.inr ⟨nofun, i.rendered s, ?_⟩
      rw [i.respond_script _ r htask t hload]
      simp only [respondScript, hscript]
  | check =>
    obtain ⟨t, hload⟩ := i.load_of_not_fails files (by rw [readsConfig, htask]) h
    refine Or.inl ⟨rfl, ?_⟩
    rw [i.respond_check _ htask t hload, respondCheck_eq_ok_iff]
    by_contra hpassed
    exact h (.check htask t hload (Bool.eq_false_iff.mpr hpassed))
  | status all => exact Or.inr ⟨nofun, _, by simp only [respond, htask]; rfl⟩
  | sample => exact Or.inr ⟨nofun, _, by simp only [respond, htask]; rfl⟩

/-- What can go wrong is what the answer tells of. -/
theorem fails_iff :
    i.Fails files ↔ ∃ f, (i.respond (files.read i.config)).result = .error f := by
  refine ⟨i.respond_of_fails files, ?_⟩
  rintro ⟨f, h⟩
  by_contra hfails
  obtain ⟨-, hresult⟩ | ⟨-, text, hresult⟩ := i.respond_of_not_fails files hfails
  · exact nomatch hresult.symm.trans h
  · exact nomatch hresult.symm.trans h

/-! ## what is left of a run -/

theorem run_of_error (f : Failure)
    (h : (i.respond (files.read i.config)).result = .error f) :
    (i.run files).1.code = 1 ∧ (i.run files).1.stdout = "" ∧ (i.run files).2 = files := by
  simp only [run, h, and_self]

theorem run_of_nothing (h : (i.respond (files.read i.config)).result = .ok none) :
    (i.run files).1.code = 0 ∧ (i.run files).1.stdout = "" ∧ (i.run files).2 = files := by
  simp only [run, h, and_self]

theorem run_of_text (text : String) (hout : i.output = none)
    (h : (i.respond (files.read i.config)).result = .ok (some text)) :
    (i.run files).1.code = 0 ∧ (i.run files).1.stdout = text ∧ (i.run files).2 = files := by
  simp only [run, h, hout, and_self]

theorem run_of_text_written (text path : String) (hout : i.output = some path)
    (h : (i.respond (files.read i.config)).result = .ok (some text)) (files' : FileTree)
    (hwrite : files.write path text = .ok files') :
    (i.run files).1.code = 0 ∧ (i.run files).1.stdout = "" ∧ (i.run files).2 = files' := by
  simp only [run, h, hout, hwrite, and_self]

/-- A check leaves nothing behind, whatever it finds. -/
theorem run_check (htask : i.task = .check) :
    (i.run files).1.stdout = "" ∧ (i.run files).2 = files := by
  by_cases hfails : i.Fails files
  · obtain ⟨f, h⟩ := i.respond_of_fails files hfails
    exact (i.run_of_error files f h).2
  · obtain ⟨_, h⟩ | ⟨hother, _⟩ := i.respond_of_not_fails files hfails
    · exact (i.run_of_nothing files h).2
    · exact absurd htask hother

end

end Invocation

theorem run_of_ofArgs (args : List String) (i : Invocation) (h : Invocation.ofArgs args = .ok i)
    (files : FileTree) : run args files = i.run files := by
  rw [run, h]

/-- **All of the output or nothing.**  A run that fails before it has something to write leaves the
standard output empty and every file as it was.  A check leaves them so in any case.  Any other run
writes one text, to the standard output or to a file, and then no other file changes. -/
theorem run_all_or_nothing (args : List String) (i : Invocation)
    (hargs : Invocation.ofArgs args = .ok i) (files : FileTree) :
    (i.Fails files →
      (run args files).1.code ≠ 0 ∧ (run args files).1.stdout = "" ∧ (run args files).2 = files) ∧
    (i.task = .check → (run args files).1.stdout = "" ∧ (run args files).2 = files) ∧
    (¬ i.Fails files → i.task ≠ .check → i.output = none →
      (run args files).1.code = 0 ∧ (run args files).2 = files ∧
        ∀ path, files.Writable path →
          ∀ args', Invocation.ofArgs args' = .ok { i with output := some path } →
            (run args' files).1.code = 0 ∧ (run args' files).1.stdout = "" ∧
              (run args' files).2.read path = .ok (run args files).1.stdout.toUTF8 ∧
                ∀ other, files.locate path ≠ .ok other →
                  (run args' files).2.file? other = files.file? other) := by
  rw [run_of_ofArgs args i hargs]
  refine ⟨?_, i.run_check files, ?_⟩
  · intro hfails
    obtain ⟨f, h⟩ := i.respond_of_fails files hfails
    obtain ⟨hcode, hstdout, hfiles⟩ := i.run_of_error files f h
    exact ⟨by rw [hcode]; decide, hstdout, hfiles⟩
  · intro hfails hcheck hout
    obtain ⟨htask, _⟩ | ⟨_, text, h⟩ := i.respond_of_not_fails files hfails
    · exact absurd htask hcheck
    · obtain ⟨hcode, hstdout, hfiles⟩ := i.run_of_text files text hout h
      refine ⟨hcode, hfiles, ?_⟩
      intro path hpath args' hargs'
      obtain ⟨files', hwrite, hread, hother⟩ := files.write_of_writable path text hpath
      -- where the text goes has no part in making it
      have h' : (({ i with output := some path } : Invocation).respond
          (files.read i.config)).result = .ok (some text) := h
      obtain ⟨hcode', hstdout', hfiles'⟩ :=
        ({ i with output := some path } : Invocation).run_of_text_written files text path rfl h'
          files' hwrite
      rw [run_of_ofArgs args' _ hargs', hstdout, hfiles']
      exact ⟨hcode', hstdout', hread, hother⟩

/-- a topology and a script of an earlier run -/
def sampleFiles : FileTree where
  files :=
    [(["spec.yaml"], ⟨"nodes:\n  - name: R1\n    type: netns\n".toUTF8, false⟩),
      (["up.sh"], ⟨"ip netns add R0\n".toUTF8, true⟩)]

def sampleUp : Invocation := { task := .script .up }

/-- a topology file that is not there -/
def absentUp : Invocation := { task := .script .up, config := "net.yaml", output := some "up.sh" }

/-- The old script is replaced by the one that would be printed, and is kept if there is no
topology. -/
theorem run_all_or_nothing_sample :
    (run ["up"] sampleFiles).1.code = 0 ∧ (run ["up", "-o", "up.sh"] sampleFiles).1.stdout = "" ∧
      (run ["up", "-o", "up.sh"] sampleFiles).2.read "up.sh"
        = .ok (run ["up"] sampleFiles).1.stdout.toUTF8 ∧
      (run ["up", "-c", "net.yaml", "-o", "up.sh"] sampleFiles).1.code ≠ 0 ∧
      (run ["up", "-c", "net.yaml", "-o", "up.sh"] sampleFiles).2 = sampleFiles := by
  have hfine : ¬ sampleUp.Fails sampleFiles := by
    rw [Invocation.fails_iff]
    rintro ⟨f, h⟩
    have hok : (sampleUp.respond (sampleFiles.read sampleUp.config)).result.isOk = true := by
      decide +kernel
    rw [h] at hok
    cases hok
  have habsent : absentUp.Fails sampleFiles := .reading rfl .notFound (by decide +kernel)
  have hpath : sampleFiles.Writable "up.sh" := ⟨by decide +kernel, "", _, rfl⟩
  obtain ⟨-, -, h⟩ := run_all_or_nothing ["up"] sampleUp rfl sampleFiles
  obtain ⟨hcode, -, hwritten⟩ := h hfine nofun rfl
  obtain ⟨-, hstdout, hread, -⟩ := hwritten "up.sh" hpath ["up", "-o", "up.sh"] rfl
  obtain ⟨h, -, -⟩ :=
    run_all_or_nothing ["up", "-c", "net.yaml", "-o", "up.sh"] absentUp rfl sampleFiles
  obtain ⟨hcode', -, hkept⟩ := h habsent
  exact ⟨hcode, hstdout, hread, hcode', hkept⟩

end Cli

end Netlab
