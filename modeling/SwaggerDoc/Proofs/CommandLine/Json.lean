import SwaggerDoc.Proofs.CommandLine.Failing
import SwaggerDoc.Proofs.CommandLine.Formats
import SwaggerDoc.Proofs.Render.Digitless

/-!
Compiling files to JSON.

A run that compiles a file and succeeds leaves the document in its output or in the file that the
call names (`carryOut_compile_success`). In JSON the text is that of the grammar if and only if all
numbers have digits that stand in the document as values, whether as bounds, in examples or in an
explicit definition (`json_is_written_unless_digitless`).
-/

namespace SwaggerDoc.CommandLine

/-- The arguments are those of a call, and do not ask for help. -/
def IsCarriedOut (setting : Setting) (arguments : List Text) (call : Call) : Prop :=
  ∃ front name behind a, Arguments.parse Switch.general false arguments = .ok front ∧
    front.has .help = false ∧ front.rest = name :: behind ∧
    Command.ofName? name = some call.command ∧
    Arguments.parse (Switch.ofCommand call.command) true behind = .ok a ∧ a.has .help = false ∧
    callOf setting call.command a = .ok call

/-- The text is the output of the run, or the content of the file that the call names. -/
def Produces (call : Call) (o : Outcome) (t : Text) : Prop :=
  match call.output with
  | none => o.output = t
  | some path => ∃ octets, Octets.encode? t = some octets ∧ o.files.read path = .ok octets

section Runs

variable {setting : Setting} {arguments : List Text} {call : Call} {files : FileTree}
  {messages t : Text} {path : Path} {c : Compiled}

/-- A call with the command in front. -/
theorem isCarriedOut_command {c : Command} {rest : List Text} {a : Arguments}
    (parsed : Arguments.parse (Switch.ofCommand c) true rest = .ok a) (noHelp : a.has .help = false)
    (fits : callOf setting c a = .ok call) (command : call.command = c) :
    IsCarriedOut setting (c.name :: rest) call := by
  subst command
  exact ⟨_, _, _, a, parse_command call.command rest, rfl, rfl, ofName?_name call.command, parsed,
    noHelp, fits⟩

theorem IsCarriedOut.run_eq (carried : IsCarriedOut setting arguments call) :
    ∃ verbose, runFrom setting arguments = carryOut setting verbose call := by
  obtain ⟨front, name, behind, a, parsed, noHelp, rest, named, parsed', noHelp', fits⟩ := carried
  have some : arguments.isEmpty = false := by
    cases arguments with
    | nil =>
      obtain rfl := Except.ok.inj parsed
      cases rest
    | cons => rfl
  refine ⟨front.has .verbose, ?_⟩
  simp only [runFrom, some, Bool.false_eq_true, if_false, parsed, noHelp, rest, named, runCommand,
    parsed', noHelp', fits]

theorem read_of_content? {target : Location} {octets : Octets} (reached : files.locate path = .ok target)
    (content : files.content? target = some octets) : files.read path = .ok octets := by
  unfold FileTree.content? at content
  unfold FileTree.read
  simp only [reached]
  split at content
  · next here =>
    obtain rfl := Option.some.inj content
    rw [here]
  · cases content

/-- A file that is written has the octets of the text. -/
theorem writeFile_success (success : (writeFile files messages path t).ending.status = 0) :
    ∃ octets, Octets.encode? t = some octets ∧
      (writeFile files messages path t).files.read path = .ok octets := by
  unfold writeFile at success ⊢
  split at success
  · cases success
  · next made attempt =>
    split at success
    · cases success
    · next written done =>
      split at success
      · next encodes =>
        obtain ⟨octets, same⟩ := Option.isSome_iff_exists.mp encodes
        rw [same, Option.getD_some] at done
        obtain ⟨target, reached, content, -⟩ := FileTree.write_eq done
        refine ⟨octets, same, ?_⟩
        simp only [same, Option.isSome_some, if_true]
        exact read_of_content? reached content
      · cases success

/-- A document that is delivered is produced, and it can be encoded. -/
theorem deliver_success (success : (deliver files call messages c).ending.status = 0) :
    ∃ t, (c.document.shape.place c.store).2.render (c.document.shape.place c.store).1 call.format
        = .ok t ∧ (∀ x ∈ t, Octets.IsCharacter x) ∧ Produces call (deliver files call messages c) t := by
  unfold deliver at success ⊢
  dsimp only at success ⊢
  split at success
  · cases success
  · next t rendered =>
    refine ⟨t, rendered, ?_⟩
    cases output : call.output with
    | none =>
      simp only [output] at success ⊢
      have absent := Store.not_mem_of_render rendered
      have characters := (writeOutput_status_iff absent).mp success
      have encodes : (Octets.encode? t).isSome :=
        Option.isSome_iff_exists.mpr (Octets.exists_encode_iff.mpr characters)
      refine ⟨characters, ?_⟩
      rw [Produces, output, writeOutput, withoutSequences_of_not_mem absent]
      simp only [encodes, if_true]
    | some path =>
      simp only [output] at success ⊢
      obtain ⟨octets, encoded, read⟩ := writeFile_success success
      refine ⟨Octets.exists_encode_iff.mp ⟨octets, encoded⟩, ?_⟩
      rw [Produces, output]
      exact ⟨octets, encoded, read⟩

/-- A call to compile that succeeds produces what is written of the compiled document. -/
theorem carryOut_compile_success {verbose : Bool} (compiles : call.command = .compile)
    (success : (carryOut setting verbose call).ending.status = 0) :
    ∃ c t, (compileAt setting call.file call.methods ⟨some [], []⟩).1 = .ok c ∧
      (c.document.shape.place c.store).2.render (c.document.shape.place c.store).1 call.format
        = .ok t ∧ (∀ x ∈ t, Octets.IsCharacter x) ∧ Produces call (carryOut setting verbose call) t := by
  unfold carryOut at success ⊢
  simp only [compiles] at success ⊢
  split at success
  · next f refused =>
    exact absurd (failed_status _ _ f ▸ success) (by decide)
  · next c done =>
    split at success
    · cases success
    · next lenient =>
      obtain ⟨t, rendered, characters, produces⟩ := deliver_success success
      exact ⟨c, t, done, rendered, characters, by rwa [if_neg lenient]⟩

end Runs

/-- A run that compiles a file to JSON and succeeds produces a text of the grammar if and only if
all numbers that stand in the document as values have digits. -/
theorem json_is_written_unless_digitless (setting : Setting) (arguments : List Text) (call : Call)
    (carried : IsCarriedOut setting arguments call) (compiles : call.command = .compile)
    (json : call.format = .json) (success : (run setting arguments).ending.status = 0) :
    ∃ c t, (compileAt setting call.file call.methods ⟨some [], []⟩).1 = .ok c ∧
      Produces call (run setting arguments) t ∧ (Json.IsJson t ↔ ¬ c.shown.HasDigitless) := by
  obtain ⟨verbose, same⟩ := carried.run_eq
  have success' : (carryOut setting verbose call).ending.status = 0 := same ▸ success
  obtain ⟨c, t, done, rendered, characters, produces⟩ := carryOut_compile_success compiles success'
  rw [json] at rendered
  rw [← same] at produces
  exact ⟨c, t, done, produces, Render.isJson_iff rendered characters⟩

/-! ## Bounds with digits and without -/

namespace BoundSample

/-- A resource file whose only field has bounds. -/
def content (bounds : String) : String :=
  "resource: \x7broute: /a, name: b, model_name: C\x7d\n"
    ++ "schema: \x7bfields: \x7bn: \x7btype: Number, " ++ bounds ++ "\x7d\x7d\x7d\n"

/-- The file alone, where JSON is the format if none is asked for. -/
def setting (bounds : String) : Setting where
  files := ⟨[([text "r.yaml"], .file ((Octets.encode? (text (content bounds))).getD []))]⟩
  format := some (text "json")

/-- The bounds have digits. -/
def finite : Setting := setting "min: -0.25, max: 1.0e+300"

/-- One of the bounds is infinite. -/
def infinite : Setting := setting "min: 0.5, max: .inf"

/-- The call to compile the file into another. -/
def intoFile : Call :=
  ⟨.compile, Path.of (text "r.yaml"), some (Path.of (text "out.json")), .json, none, false⟩

/-- The call to compile the file. -/
def toOutput : Call := ⟨.compile, Path.of (text "r.yaml"), none, .json, none, false⟩

theorem intoFile_isCarriedOut :
    IsCarriedOut finite (["compile", "r.yaml", "-o", "out.json"].map text) intoFile := by
  have parsed : Arguments.parse (Switch.ofCommand .compile) true
      (["r.yaml", "-o", "out.json"].map text) =
        .ok ⟨[⟨.output, text "out.json"⟩], [text "r.yaml"]⟩ := by
    simp only [Arguments.parse, List.map]
    rfl
  exact isCarriedOut_command parsed rfl rfl rfl

theorem toOutput_isCarriedOut : IsCarriedOut infinite (["compile", "r.yaml"].map text) toOutput := by
  have parsed : Arguments.parse (Switch.ofCommand .compile) true [text "r.yaml"] =
      .ok ⟨[], [text "r.yaml"]⟩ := by
    simp only [Arguments.parse]
    rfl
  exact isCarriedOut_command parsed rfl rfl rfl

end BoundSample

open BoundSample in
/-- The sample with finite bounds comes out in a file. -/
theorem finite_sample_is_written :
    IsCarriedOut finite (["compile", "r.yaml", "-o", "out.json"].map text) intoFile ∧
      (run finite (["compile", "r.yaml", "-o", "out.json"].map text)).ending.status = 0 ∧
      ∃ c t, (compileAt finite intoFile.file none ⟨some [], []⟩).1 = .ok c ∧
        Produces intoFile (run finite (["compile", "r.yaml", "-o", "out.json"].map text)) t ∧
        (Json.IsJson t ↔ ¬ c.shown.HasDigitless) := by
  have success : (run finite (["compile", "r.yaml", "-o", "out.json"].map text)).ending.status = 0 := by
    decide +kernel
  exact ⟨intoFile_isCarriedOut, success,
    json_is_written_unless_digitless _ _ _ intoFile_isCarriedOut rfl rfl success⟩

open BoundSample in
/-- A run that compiles a file to JSON and succeeds can produce what is no JSON. -/
theorem compiled_json_can_be_no_json :
    ¬ ∀ (setting : Setting) (arguments : List Text) (call : Call),
      IsCarriedOut setting arguments call → call.command = .compile → call.format = .json →
        (run setting arguments).ending.status = 0 →
          ∀ t, Produces call (run setting arguments) t → Json.IsJson t := by
  intro promised
  have json := promised infinite (["compile", "r.yaml"].map text) toOutput toOutput_isCarriedOut rfl
    rfl (by decide +kernel) _ rfl
  have marked : ∃ x ∈ Json.outside (run infinite (["compile", "r.yaml"].map text)).output,
      Json.IsDigitlessMark x := by
    decide +kernel
  obtain ⟨x, member, mark⟩ := marked
  exact json.not_isDigitlessMark x member mark

end SwaggerDoc.CommandLine
