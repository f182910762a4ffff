import SwaggerDoc.Proofs.CommandLine.Operand
import SwaggerDoc.Proofs.Nesting
import SwaggerDoc.Proofs.Render.Obstacles

/-!
Compiling checked files to a format.

A check of a file stops where its document is compiled. The document consists of data
(`Compilation.isData`), so that compiling the file to a format succeeds only if no part of the
document obstructs that format, and then it does succeed unless the document is nested too deep
(`checked_file_compiles_unless_obstructed`).
-/

namespace SwaggerDoc.CommandLine

/-- What the document of a compiled file shows. -/
def Compiled.shown (c : Compiled) : Tree :=
  (c.document.shape.place c.store).2.unfold (c.document.shape.place c.store).1

section Documents

variable {setting : Setting} {path : Path} {methods : Option Text} {c : Compiled}

/-- What comes into the document of a file are data, and so are the parts of its own. -/
theorem Compilation.isData (k : Compilation setting path methods c) : c.shown.IsData := by
  have data := k.lies.plain
  have extended := k.lies.extended.trans k.extended
  have defined : k.definition.shape.Takes Value.IsPlainScalar
      fun v => (c.store.unfold v).IsData := by
    have defines := k.defines
    generalize k.definition = definition, k.visits = visits at defines
    cases defines with
    | given explicit =>
      rcases k.lies.definition with absent | ⟨entries, cell, parts⟩
      · exact absurd absent explicit
      · have kept := k.extended.deref?_of_some cell
        exact Shape.takes_copy (data.isData_unfold_of_deref? extended kept rfl parts)
    | made implicit lies =>
      exact lies.takes_samples fun p f cell =>
        data.isData_unfold extended (k.lies.samples p f cell)
  have takes := k.resource.takes_document defined
  rw [Compiled.shown, Shape.unfold_place k.closed (.refl _) k.closed k.heldBy, k.document]
  refine (takes.imp ?_ fun _ shown => shown).everywhere_tree (fun _ => rfl) (fun _ => rfl)
    fun _ => rfl
  rintro v ⟨x, plain, rfl⟩
  exact Tree.everywhere_scalar.mpr plain

end Documents

section Runs

variable {files : FileTree} {call : Call} {messages : Text} {c : Compiled} {setting : Setting}
  {name : Text}

/-- A text without control sequences is written exactly if it can be encoded. -/
theorem writeOutput_status_iff {t : Text} (absent : 0x1B ∉ t) :
    (writeOutput files messages t).ending.status = 0 ↔ ∀ x ∈ t, Octets.IsCharacter x := by
  rw [← Octets.exists_encode_iff, ← Option.isSome_iff_exists, writeOutput,
    withoutSequences_of_not_mem absent]
  split
  · next encodes => exact iff_of_true rfl encodes
  · next refused => exact iff_of_false (Nat.succ_ne_zero _) refused

/-- A document is delivered to the output exactly if no part of it obstructs the format. -/
theorem deliver_status_iff (data : c.shown.IsData) (output : call.output = none) :
    (deliver files call messages c).ending.status = 0 ↔
      c.shown.Everywhere fun part => ¬ part.Obstructs call.format := by
  rw [Compiled.shown, ← Store.exists_render_iff data]
  simp only [deliver, output]
  split
  · next f refused =>
    refine iff_of_false (Nat.succ_ne_zero _) ?_
    rintro ⟨t, rendered, -⟩
    cases refused.symm.trans rendered
  · next t rendered =>
    rw [writeOutput_status_iff (Store.not_mem_of_render rendered)]
    constructor
    · exact fun characters => ⟨t, rendered, characters⟩
    · rintro ⟨t', rendered', characters⟩
      obtain rfl := Except.ok.inj (rendered.symm.trans rendered')
      exact characters

/-- A file that can be read can be compiled to a format. -/
theorem runCommand_compile (format : Format)
    (reads : Arguments.read (Switch.ofCommand .compile) name = .ok .other)
    (readable : checkFile setting ⟨[], [name]⟩ = .ok ()) :
    ∃ call, IsForFile setting .compile name call ∧ call.format = format ∧
      runCommand setting false .compile [name, text "--format", format.name] =
        carryOut setting false call := by
  have named : Arguments.read (Switch.ofCommand .compile) (text "--format") =
      .ok (.awaits [] .format (text "--format")) := rfl
  have parsed : Arguments.parse (Switch.ofCommand .compile) true
      [name, text "--format", format.name] = .ok ⟨[⟨.format, format.name⟩], [name]⟩ := by
    simp only [Arguments.parse, reads, named]
    rfl
  have fits : callOf setting .compile ⟨[⟨.format, format.name⟩], [name]⟩ =
      .ok ⟨.compile, Path.of name, none, format, none, false⟩ := by
    have same : checkFile setting ⟨[⟨.format, format.name⟩], [name]⟩ = .ok () := readable
    rw [callOf]
    simp only [same]
    cases format <;> rfl
  refine ⟨⟨.compile, Path.of name, none, format, none, false⟩,
    ⟨readable, rfl, rfl, rfl, rfl, rfl⟩, rfl, ?_⟩
  rw [runCommand, parsed]
  simp only [fits]
  rfl

/-- A check that succeeds has compiled the file. -/
theorem exists_of_check_success (other : name ≠ text "--help")
    (success : (run setting [text "check", name]).ending.status = 0) :
    Arguments.read (Switch.ofCommand .check) name = .ok .other ∧
      checkFile setting ⟨[], [name]⟩ = .ok () ∧
      ∃ c journal, compileAt setting (Path.of name) none ⟨some [], []⟩ = (.ok c, journal) := by
  have checked : runFrom setting [text "check", name] = runCommand setting false .check [name] :=
    runFrom_command setting .check [name]
  have success' : (runCommand setting false .check [name]).ending.status = 0 := checked ▸ success
  rcases exists_call_of_success success' with help | ⟨call, reads, fits, carried⟩
  · exact absurd help other
  · have asks := isForFile_of_callOf fits
    rw [carried, carryOut_check _ call asks.command, asks.file] at success'
    refine ⟨reads, asks.readable, ?_⟩
    rcases done : compileAt setting (Path.of name) none ⟨some [], []⟩ with ⟨f | c, journal⟩
    · rw [done] at success'
      exact absurd (failed_status _ _ f ▸ success') (by decide)
    · exact ⟨c, journal, rfl⟩

end Runs

/-- Whenever a check of a file succeeds, compiling the file to a format succeeds only if no part of
the compiled document obstructs that format, and it does succeed then if the document is not nested
too deep. -/
theorem checked_file_compiles_unless_obstructed (setting : Setting) (name : Text)
    (other : name ≠ text "--help")
    (success : (run setting [text "check", name]).ending.status = 0) :
    ∃ c journal, compileAt setting (Path.of name) none ⟨some [], []⟩ = (.ok c, journal) ∧
      ∀ format : Format,
        ((run setting [text "compile", name, text "--format", format.name]).ending.status = 0 →
          c.shown.Everywhere fun part => ¬ part.Obstructs format) ∧
        (c.shown.depth ≤ sureDepth → (c.shown.Everywhere fun part => ¬ part.Obstructs format) →
          (run setting [text "compile", name, text "--format", format.name]).ending.status = 0) := by
  obtain ⟨reads, readable, c, journal, done⟩ := exists_of_check_success other success
  obtain ⟨k, -⟩ := exists_of_compileAt done
  refine ⟨c, journal, done, fun format => ?_⟩
  have named : runFrom setting [text "compile", name, text "--format", format.name] =
      runCommand setting false .compile [name, text "--format", format.name] :=
    runFrom_command setting .compile _
  obtain ⟨call, asks, rfl, carried⟩ :=
    runCommand_compile format (Arguments.read_other reads) readable
  have ends : (run setting [text "compile", name, text "--format", call.format.name]).ending =
      (deliver setting.files call ((journal.kept.getD []).flatMap fallbackLine) c).ending := by
    rw [run, named, carried, carryOut_compile _ call asks.command, asks.file, asks.methods]
    simp only [done, asks.strict, Bool.false_and, Bool.false_eq_true, if_false]
  have delivered : (run setting [text "compile", name, text "--format",
      call.format.name]).ending.status = 0 ↔
        c.shown.Everywhere fun part => ¬ part.Obstructs call.format := by
    rw [ends]
    exact deliver_status_iff k.isData asks.output
  exact ⟨delivered.mp, fun _ => delivered.mpr⟩

/-! ## A date in a definition -/

namespace DatedSample

/-- A resource file whose explicit definition has a date in it. -/
def content : String :=
  "resource: \x7broute: /a, name: b, model_name: C\x7d\n" ++ "definition: \x7bx: 2020-01-02\x7d\n"

def dated : Setting where
  files := ⟨[([text "r.yaml"], .file ((Octets.encode? (text content)).getD []))]⟩
  format := none

end DatedSample

open DatedSample in
/-- The sample passes the check. Its date obstructs JSON, and nothing obstructs YAML. -/
theorem dated_sample_compiles_to_yaml :
    (run dated [text "check", text "r.yaml"]).ending.status = 0 ∧
      (∃ c journal,
        compileAt dated (Path.of (text "r.yaml")) none ⟨some [], []⟩ = (.ok c, journal) ∧
          ∀ format : Format,
            (run dated [text "compile", text "r.yaml", text "--format", format.name]).ending.status = 0
              ↔ c.shown.Everywhere fun part => ¬ part.Obstructs format) ∧
      (run dated [text "compile", text "r.yaml", text "--format", text "yaml"]).ending.status = 0 := by
  have success : (run dated [text "check", text "r.yaml"]).ending.status = 0 := by decide +kernel
  obtain ⟨c, journal, done, compiles⟩ :=
    checked_file_compiles_unless_obstructed dated (text "r.yaml") (by decide) success
  have shallow : c.shown.depth ≤ sureDepth := by
    have all : (compileAt dated (Path.of (text "r.yaml")) none ⟨some [], []⟩).1.toOption.all
        (fun c => decide (c.shown.depth ≤ sureDepth)) = true := by decide +kernel
    rw [done] at all
    exact of_decide_eq_true all
  exact ⟨success,
    ⟨c, journal, done, fun format => ⟨(compiles format).1, (compiles format).2 shallow⟩⟩,
    by decide +kernel⟩

open DatedSample in
/-- A check that succeeds does not promise that the file can be compiled to every format. -/
theorem checked_file_can_fail_to_compile :
    ¬ ∀ (setting : Setting) (name : Text), name ≠ text "--help" →
      (run setting [text "check", name]).ending.status = 0 → ∀ format : Format,
        (run setting [text "compile", name, text "--format", format.name]).ending.status = 0 := by
  intro promised
  have compiles := promised dated (text "r.yaml") (by decide) (by decide +kernel) .json
  exact absurd compiles (by decide +kernel)

end SwaggerDoc.CommandLine
