import SwaggerDoc.CommandLine.Run
import SwaggerDoc.Proofs.FileTree
import SwaggerDoc.Proofs.Outcome

/-!
What a failing run leaves behind.

Everything that can fail comes before anything is written, apart from the encoding of the document:
a file is there, and empty, before its text is found to have no encoding. So a run that does not
succeed has written nothing, unless it was to write a text that cannot be encoded into a file.
-/

namespace SwaggerDoc.CommandLine

/-- Nothing is written: there is no output, the files have the content that they had, and whatever
was there still is. -/
structure LeavesNothing (before : FileTree) (o : Outcome) : Prop where
  output : o.output = []
  files : ∀ l, o.files.content? l = before.content? l
  kept : ∀ l e, before.entry? l = some e → o.files.entry? l = some e

/-- The file that a path leads to is left empty, and the other files have the content that they
had. -/
structure Empties (before : FileTree) (path : Path) (o : Outcome) : Prop where
  ending : o.ending = .uncaught .notEncodable
  output : o.output = []
  emptied : ∃ target, o.files.locate path = .ok target ∧ o.files.content? target = some [] ∧
    ∀ l ≠ target, o.files.content? l = before.content? l

/-- The text that a call writes. -/
def writtenText (setting : Setting) (call : Call) : Except Fault Text := do
  let c ← (compileAt setting call.file call.methods ⟨some [], []⟩).1
  let (v, s) := c.document.shape.place c.store
  s.render v call.format

/-- A call to compile into a file, the document for which is a text that cannot be encoded. -/
structure WritesUnencodable (setting : Setting) (call : Call) (path : Path) : Prop where
  command : call.command = .compile
  output : call.output = some path
  text : ∃ t, writtenText setting call = .ok t ∧ Octets.encode? t = none

/-- The arguments are those of a call. -/
def IsCall (setting : Setting) (arguments : List Text) (call : Call) : Prop :=
  ∃ front name behind a, Arguments.parse Switch.general false arguments = .ok front ∧
    front.rest = name :: behind ∧ Command.ofName? name = some call.command ∧
    Arguments.parse (Switch.ofCommand call.command) true behind = .ok a ∧
    callOf setting call.command a = .ok call

/-! ## Writing -/

section Writing

variable {files : FileTree} {messages t : Text} {path : Path} {call : Call} {o : Outcome}

theorem LeavesNothing.of_adds (output : o.output = []) (adds : files.AddsDirectories o.files) :
    LeavesNothing files o :=
  ⟨output, adds.content?_eq, fun _ _ present => adds.entry?_eq present⟩

theorem LeavesNothing.of_same (output : o.output = []) (same : o.files = files) :
    LeavesNothing files o :=
  .of_adds output (same ▸ .refl _)

theorem failed_leavesNothing (messages : Text) (f : Fault) :
    LeavesNothing files (failed files messages f) := by
  unfold failed
  split
  · exact .of_same rfl rfl
  · exact .of_same rfl rfl

/-- A run succeeds, leaves nothing behind, or empties a file that the condition holds of. -/
inductive Ends (files : FileTree) (unsafely : Path → Prop) (o : Outcome) : Prop where
  | success (none : o.ending.status = 0)
  | nothing (leaves : LeavesNothing files o)
  | emptied (path : Path) (holds : unsafely path) (empties : Empties files path o)

theorem Ends.mono {a b : Path → Prop} (ends : Ends files a o)
    (weaker : ∀ path, a path → b path) : Ends files b o := by
  rcases ends with none | leaves | ⟨path, holds, empties⟩
  · exact .success none
  · exact .nothing leaves
  · exact .emptied path (weaker path holds) empties

theorem writeOutput_ends {unsafely : Path → Prop} :
    Ends files unsafely (writeOutput files messages t) := by
  simp only [writeOutput]
  split
  · exact .success rfl
  · exact .nothing (.of_same rfl rfl)

theorem writeFile_ends :
    Ends files (fun p => p = path ∧ Octets.encode? t = none)
      (writeFile files messages path t) := by
  have adds := FileTree.addsDirectories_withDirectories files path.parent
  unfold writeFile
  split
  · next made f attempt =>
    rw [attempt] at adds
    exact .nothing (.of_adds rfl adds)
  · next made attempt =>
    rw [attempt] at adds
    split
    · exact .nothing (.of_adds rfl adds)
    · next written done =>
      split
      · exact .success rfl
      · next unencodable =>
        have none : Octets.encode? t = none := by simpa using unencodable
        obtain ⟨target, reached, content, others⟩ := FileTree.write_eq done
        rw [none] at content
        refine .emptied path ⟨rfl, none⟩ ⟨rfl, rfl, target, reached, content, ?_⟩
        intro l different
        rw [← adds.content?_eq l, FileTree.content?, FileTree.content?, others l different]

theorem deliver_ends (c : Compiled) :
    Ends files (fun path => call.output = some path ∧ ∃ t,
        (let (v, s) := c.document.shape.place c.store; s.render v call.format) = .ok t ∧
          Octets.encode? t = none)
      (deliver files call messages c) := by
  simp only [deliver]
  split
  · exact .nothing (.of_same rfl rfl)
  · next t rendered =>
    split
    · exact writeOutput_ends
    · next path output =>
      exact writeFile_ends.mono fun p ⟨same, unencodable⟩ =>
        ⟨same ▸ output, t, rendered, unencodable⟩

end Writing

/-! ## Carrying out a call -/

section Calls

variable {files : FileTree} {setting : Setting}

theorem carryOut_ends (verbose : Bool) (call : Call) :
    Ends setting.files (WritesUnencodable setting call) (carryOut setting verbose call) := by
  unfold carryOut
  cases command : call.command with
  | check =>
    simp only
    split
    · exact .nothing (failed_leavesNothing _ _)
    · exact writeOutput_ends
  | compile =>
    simp only
    split
    · exact .nothing (failed_leavesNothing _ _)
    · next compiled done =>
      split
      · exact .nothing (.of_same rfl rfl)
      · refine (deliver_ends compiled).mono fun path ⟨output, t, rendered, unencodable⟩ => ?_
        refine ⟨command, output, t, ?_, unencodable⟩
        rw [writtenText, done]
        exact rendered

theorem misused_leavesNothing (c : Option Command) (e : UsageError) :
    LeavesNothing files (misused files c e) :=
  .of_same rfl rfl

theorem runUnknown_ends {unsafely : Path → Prop} (name : Text) (rest : List Text) :
    Ends files unsafely (runUnknown files name rest) := by
  unfold runUnknown
  split
  · exact .nothing (misused_leavesNothing _ _)
  · split
    · exact .success rfl
    · exact .nothing (misused_leavesNothing _ _)

theorem runCommand_ends (verbose : Bool) (c : Command) (arguments : List Text) :
    Ends setting.files
      (fun path => ∃ a call, Arguments.parse (Switch.ofCommand c) true arguments = .ok a ∧
        callOf setting c a = .ok call ∧ WritesUnencodable setting call path)
      (runCommand setting verbose c arguments) := by
  unfold runCommand
  split
  · exact .nothing (misused_leavesNothing _ _)
  · next a parsed =>
    split
    · exact .success rfl
    · split
      · exact .nothing (misused_leavesNothing _ _)
      · exact .nothing (.of_same rfl rfl)
      · next call fits =>
        exact (carryOut_ends verbose call).mono fun path writes => ⟨a, call, parsed, fits, writes⟩

theorem command_of_callOf {c : Command} {a : Arguments} {call : Call}
    (fits : callOf setting c a = .ok call) : call.command = c := by
  obtain ⟨_, -, fits⟩ := Except.exists_ok_of_bind fits
  obtain ⟨_, -, fits⟩ := Except.exists_ok_of_bind fits
  obtain ⟨_, -, fits⟩ := Except.exists_ok_of_bind fits
  split at fits
  · obtain rfl := Except.ok.inj fits
    rfl
  · cases fits

theorem runFrom_ends (arguments : List Text) :
    Ends setting.files
      (fun path => ∃ call, IsCall setting arguments call ∧
        WritesUnencodable setting call path)
      (runFrom setting arguments) := by
  unfold runFrom
  split
  · exact .nothing (.of_same rfl rfl)
  · split
    · exact .nothing (misused_leavesNothing _ _)
    · next front parsed =>
      split
      · exact .success rfl
      · split
        · exact .nothing (misused_leavesNothing _ _)
        · next name behind rest =>
          split
          · exact runUnknown_ends _ _
          · next c named =>
            refine (runCommand_ends _ c behind).mono fun path writes => ?_
            obtain ⟨a, call, parsed', fits, unencodable⟩ := writes
            obtain rfl := command_of_callOf fits
            exact ⟨call, ⟨front, name, behind, a, parsed, rest, named, parsed', fits⟩, unencodable⟩

end Calls

/-- A run that fails leaves nothing behind, unless it is a call to compile into a file and the text
cannot be encoded: then this file is left empty. -/
theorem failing_run_leaves_nothing (setting : Setting) (arguments : List Text)
    (fails : (run setting arguments).ending.status ≠ 0) :
    LeavesNothing setting.files (run setting arguments) ∨
      ∃ call path, IsCall setting arguments call ∧ WritesUnencodable setting call path ∧
        Empties setting.files path (run setting arguments) := by
  have ends : Ends setting.files _ (runFrom setting arguments) := runFrom_ends arguments
  rcases ends with success | ⟨output, files, kept⟩ | ⟨path, ⟨call, fits, writes⟩, empties⟩
  · exact absurd success fails
  · exact .inl ⟨output, files, kept⟩
  · exact .inr ⟨call, path, fits, writes, ⟨empties.ending, empties.output, empties.emptied⟩⟩

/-! ## A strict run, and one with a surrogate half -/

namespace FailingSample

/-- A resource file and a file to write into, which has a content already. -/
def setting (resource : String) : Setting where
  files := ⟨[([text "r.yaml"], .file ((Octets.encode? (text resource)).getD [])),
    ([text "out.json"], .file [111, 108, 100])]⟩
  format := none

/-- The arguments to compile the one into the other. -/
def arguments (others : List String) : List Text :=
  ["compile", "r.yaml", "-o", "out.json", "--format", "json"].map text ++ others.map text

/-- A resource file with a reference, of which no type is known. -/
def withReference : String :=
  "resource: \x7broute: /a, name: b, model_name: C\x7d\nschema: \x7bfields: \x7bx: ObjectId\x7d\x7d\n"

/-- A resource file that gives half of a surrogate pair by its number. -/
def withSurrogate : String :=
  "resource: \x7broute: /a, name: b, model_name: C\x7d\ndefinition: \x7bx: \"\\ud800\"\x7d\n"

/-- The run without fallbacks. -/
def strictRun : Outcome := run (setting withReference) (arguments ["--strict"])

/-- The run that meets the surrogate half. -/
def surrogateRun : Outcome := run (setting withSurrogate) (arguments [])

theorem strictRun_fails : strictRun.ending.status ≠ 0 := by decide +kernel

/-- Whether nothing caught what went wrong. -/
def isUncaught : Ending → Bool
  | .uncaught _ => true
  | _ => false

theorem strictRun_caught : isUncaught strictRun.ending = false := by decide +kernel

end FailingSample

open FailingSample in
/-- In the sample a strict run fails after it has compiled the document, and leaves nothing
behind. -/
theorem strict_sample_leaves_nothing :
    strictRun.ending.status ≠ 0 ∧ LeavesNothing (setting withReference).files strictRun := by
  refine ⟨strictRun_fails, ?_⟩
  rcases failing_run_leaves_nothing _ _ strictRun_fails with nothing | ⟨_, _, -, -, empties⟩
  · exact nothing
  · have caught := strictRun_caught
    rw [strictRun, empties.ending] at caught
    cases caught

open FailingSample in
/-- Not every failing run leaves the files as they were. -/
theorem failing_run_can_empty_file :
    ¬ ∀ (setting : Setting) (arguments : List Text),
      (run setting arguments).ending.status ≠ 0 →
        ∀ l, (run setting arguments).files.content? l = setting.files.content? l := by
  intro kept
  have fails : surrogateRun.ending.status ≠ 0 := by decide +kernel
  have emptied : surrogateRun.files.content? [text "out.json"] ≠
      (setting withSurrogate).files.content? [text "out.json"] := by
    decide +kernel
  exact emptied (kept _ _ fails _)

end SwaggerDoc.CommandLine
