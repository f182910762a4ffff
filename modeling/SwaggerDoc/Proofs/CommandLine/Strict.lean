import SwaggerDoc.Proofs.CommandLine.Compiled
import SwaggerDoc.Proofs.CommandLine.Failing

/-!
Runs with and without the option that forbids fallbacks.

Both runs have the same setting: the same files, and the same order in which sets are gone through,
whichever that is. The option changes nothing but one part of the call, wherever it stands among the
arguments (`adds_parse`, `callOf_strict`). It matters only once a document is compiled: if fields of
the schema are references, the run ends instead of writing the document, and otherwise it goes on as
before.
-/

namespace SwaggerDoc.CommandLine

namespace Arguments

/-- Whether an option that stands behind the arguments is read as one: no option among them still
waits for its value, and no two hyphens say that options are over. What is no argument at all ends
the reading before that. -/
def isOpen (known : List Switch) : List Text → Bool
  | [] => true
  | argument :: rest =>
    match read known argument with
    | .ok (.awaits ..) =>
      match rest with
      | [] => false
      | _ :: rest => isOpen known rest
    | .ok .last => false
    | .ok (.options _) | .ok .other => isOpen known rest
    | .error _ => true

/-- The second result is the first with one more option. -/
inductive Adds (g : Given) : Except UsageError Arguments → Except UsageError Arguments → Prop
  | error (e : UsageError) : Adds g (.error e) (.error e)
  | ok (front back : List Given) (rest : List Text) :
    Adds g (.ok ⟨front ++ back, rest⟩) (.ok ⟨front ++ g :: back, rest⟩)

variable {g : Given} {r r' : Except UsageError Arguments}

theorem Adds.withOptions (adds : Adds g r r') (given : List Given) :
    Adds g (do return (← r).withOptions given) (do return (← r').withOptions given) := by
  cases adds with
  | error e => exact .error e
  | ok front back rest =>
    have added := Adds.ok (g := g) (given ++ front) back rest
    rw [List.append_assoc, List.append_assoc] at added
    exact added

theorem Adds.withRest (adds : Adds g r r') (argument : Text) :
    Adds g (do let a ← r; return { a with rest := argument :: a.rest })
      (do let a ← r'; return { a with rest := argument :: a.rest }) := by
  cases adds with
  | error e => exact .error e
  | ok front back rest => exact .ok front back (argument :: rest)

theorem Adds.inFront (r : Except UsageError Arguments) :
    Adds g r (do return (← r).withOptions [g]) := by
  cases r with
  | error e => exact .error e
  | ok a => exact .ok [] a.options a.rest

/-- An option that needs no value is added to the options, wherever it stands. -/
theorem adds_parse {known : List Switch} {option : Text} (reads : read known option = .ok (.options [g]))
    (before behind : List Text) (opened : isOpen known before = true) :
    Adds g (parse known true (before ++ behind)) (parse known true (before ++ option :: behind)) := by
  fun_induction isOpen known before with
  | case1 =>
    simp only [List.nil_append, parse, reads]
    exact .inFront _
  | case2 argument given s name awaits =>
    cases opened
  | case3 argument given s name awaits value rest ih =>
    simp only [List.cons_append, parse, awaits]
    exact (ih opened).withOptions _
  | case4 => cases opened
  | case5 argument rest given complete ih =>
    simp only [List.cons_append, parse, complete]
    exact (ih opened).withOptions _
  | case6 argument rest other ih =>
    simp only [List.cons_append, parse, other]
    exact (ih opened).withRest _
  | case7 argument rest e mistaken =>
    simp only [List.cons_append, parse, mistaken]
    exact .error e

variable {s : Switch} {front back : List Given} {rest : List Text}

theorem has_of_ne (other : g.switch ≠ s) :
    has ⟨front ++ g :: back, rest⟩ s = has ⟨front ++ back, rest⟩ s := by
  have skipped : (g.switch == s) = false := beq_eq_false_iff_ne.mpr other
  simp [has, skipped]

theorem value?_of_ne (other : g.switch ≠ s) :
    value? ⟨front ++ g :: back, rest⟩ s = value? ⟨front ++ back, rest⟩ s := by
  have skipped : (g.switch == s) = false := beq_eq_false_iff_ne.mpr other
  simp [value?, skipped]

end Arguments

/-! ## The call -/

section Calls

variable {setting : Setting} {front back : List Given} {rest : List Text}

/-- The option as it is given. -/
def strictGiven : Given := ⟨.strict, []⟩

theorem checkSwitch_strict (setting : Setting) (a : Arguments) :
    checkSwitch setting a .strict = .ok () := rfl

theorem value?_strict {s : Switch} (other : Switch.strict ≠ s) :
    Arguments.value? ⟨front ++ strictGiven :: back, rest⟩ s =
      Arguments.value? ⟨front ++ back, rest⟩ s :=
  Arguments.value?_of_ne (g := strictGiven) other

theorem formatName_strict :
    formatName setting ⟨front ++ strictGiven :: back, rest⟩ =
      formatName setting ⟨front ++ back, rest⟩ := by
  rw [formatName, formatName, value?_strict (s := .format) nofun]

/-- The option has no part in the checks of the others. -/
theorem checkSwitch_adds (s : Switch) :
    checkSwitch setting ⟨front ++ strictGiven :: back, rest⟩ s =
      checkSwitch setting ⟨front ++ back, rest⟩ s := by
  cases s with
  | output => rw [checkSwitch, checkSwitch, value?_strict (s := .output) nofun]
  | format => rw [checkSwitch, checkSwitch, formatName_strict]
  | _ => rfl

/-- Checks that cannot fail can be left out. -/
theorem forM_filter_eq {ε : Type} {check : Switch → Except ε Unit} {p q : Switch → Bool}
    (same : ∀ s, p s = q s ∨ check s = .ok ()) (switches : List Switch) :
    (switches.filter p).forM check = (switches.filter q).forM check := by
  simp only [List.forM_eq_forM]
  induction switches with
  | nil => rfl
  | cons s switches ih =>
    simp only [List.filter_cons]
    rcases same s with agree | passes
    · rw [agree]
      split
      · rw [List.forM_cons, List.forM_cons, ih]
      · exact ih
    · have skip (rest : List Switch) : forM (s :: rest) check = forM rest check := by
        rw [List.forM_cons, passes]
        rfl
      split <;> split
      · rw [skip, skip, ih]
      · rw [skip, ih]
      · rw [skip, ih]
      · exact ih

theorem forM_given_eq (a : Arguments) :
    ((front ++ strictGiven :: back).map Given.switch).forM (checkSwitch setting a) =
      ((front ++ back).map Given.switch).forM (checkSwitch setting a) := by
  simp only [List.forM_eq_forM]
  induction front with
  | nil => exact List.forM_cons
  | cons g front ih =>
    rw [List.cons_append, List.cons_append, List.map_cons, List.map_cons, List.forM_cons,
      List.forM_cons, ih]

/-- With the option a call is the same call, but strict. -/
theorem callOf_strict :
    callOf setting .compile ⟨front ++ strictGiven :: back, rest⟩ =
      (callOf setting .compile ⟨front ++ back, rest⟩).map fun call => { call with strict := true } := by
  have checks : checkSwitch setting ⟨front ++ strictGiven :: back, rest⟩ =
      checkSwitch setting ⟨front ++ back, rest⟩ := funext checkSwitch_adds
  have strict : Arguments.has ⟨front ++ strictGiven :: back, rest⟩ .strict = true := by
    simp [Arguments.has, strictGiven]
  have left (s : Switch) :
      (!Arguments.has ⟨front ++ strictGiven :: back, rest⟩ s) =
          (!Arguments.has ⟨front ++ back, rest⟩ s) ∨
        checkSwitch setting ⟨front ++ back, rest⟩ s = .ok () := by
    by_cases same : Switch.strict = s
    · exact .inr (same ▸ checkSwitch_strict setting _)
    · exact .inl (congrArg _ (Arguments.has_of_ne (g := strictGiven) same))
  have file : checkFile setting ⟨front ++ strictGiven :: back, rest⟩ =
      checkFile setting ⟨front ++ back, rest⟩ := rfl
  simp only [callOf, checks, forM_given_eq, forM_filter_eq left, strict, formatName_strict, file,
    value?_strict (s := .output) nofun, value?_strict (s := .methods) nofun]
  cases List.forM (List.map Given.switch (front ++ back))
    (checkSwitch setting ⟨front ++ back, rest⟩) with
  | error e => rfl
  | ok u =>
    cases checkFile setting ⟨front ++ back, rest⟩ with
    | error e => rfl
    | ok u =>
      cases List.forM (List.filter (fun s => !Arguments.has ⟨front ++ back, rest⟩ s)
        (Switch.ofCommand .compile)) (checkSwitch setting ⟨front ++ back, rest⟩) with
      | error e => rfl
      | ok u =>
        rcases rest with _ | ⟨name, _ | ⟨other, others⟩⟩
        · rfl
        · rfl
        · rfl

end Calls

/-! ## The run -/

section Runs

variable {files : FileTree} {setting : Setting} {call : Call}

theorem ofName?_name (c : Command) : Command.ofName? c.name = some c := by cases c <;> rfl

/-- A command in front ends the general options. -/
theorem parse_command (c : Command) (rest : List Text) :
    Arguments.parse Switch.general false (c.name :: rest) = .ok ⟨[], c.name :: rest⟩ := by
  have reads : Arguments.read Switch.general c.name = .ok .other := by cases c <;> rfl
  rw [Arguments.parse, reads]
  rfl

/-- A run with a command in front is a run of the command, without a log. -/
theorem runFrom_command (setting : Setting) (c : Command) (rest : List Text) :
    runFrom setting (c.name :: rest) = runCommand setting false c rest := by
  rw [runFrom, parse_command]
  simp only [ofName?_name]
  rfl

/-- Whatever is said about a document that is delivered is said behind what was said before. -/
theorem exists_messages_of_deliver (files : FileTree) (call : Call) (messages : Text) (c : Compiled) :
    ∃ more, (deliver files call messages c).messages = messages ++ more := by
  have nothing {o : Outcome} (same : o.messages = messages) :
      ∃ more, o.messages = messages ++ more := ⟨[], by rw [same, List.append_nil]⟩
  simp only [deliver]
  split
  · exact nothing rfl
  · split
    · rw [writeOutput]
      split
      · exact nothing rfl
      · exact nothing rfl
    · unfold writeFile
      split
      · exact nothing rfl
      · split
        · exact nothing rfl
        · split
          · exact ⟨_, rfl⟩
          · exact nothing rfl

/-- The end of a strict run that meets fallbacks. -/
def refusedFor (files : FileTree) (fallbacks : List Fallback) : Outcome where
  ending := .strict
  output := []
  messages := fallbacks.flatMap fallbackLine
    ++ errorLine (Text.ofNat fallbacks.length ++ text " field(s) fell back to string")
  files := files

/-- Compiling without a log: the document is delivered, unless fallbacks are forbidden and there are
some. -/
theorem carryOut_compile (setting : Setting) (call : Call) (command : call.command = .compile) :
    carryOut setting false call =
      match compileAt setting call.file call.methods ⟨some [], []⟩ with
      | (.error f, _) => failed setting.files [] f
      | (.ok c, journal) =>
        if call.strict && (journal.kept.getD []).length != 0 then
          refusedFor setting.files (journal.kept.getD [])
        else deliver setting.files call ((journal.kept.getD []).flatMap fallbackLine) c := by
  unfold carryOut
  simp only [command]
  rcases compileAt setting call.file call.methods ⟨some [], []⟩ with ⟨_ | c, journal⟩
  · rfl
  · rfl

end Runs

/-- The line about a visited field, if it is a reference. -/
def referenceLine (x : Visit) : Text := (x.fallback?.map fallbackLine).getD []

/-- A call to compile gets as far as a document, the definition in it is made from a schema, and
these of the fields visited in the schema are references, of which there are some. -/
structure MeetsReferences (setting : Setting) (arguments : List Text) (references : List Visit) :
    Prop where
  exists_call : ∃ (a : Arguments) (call : Call) (c : Compiled) (journal : Journal)
    (file : ResourceFile) (s : Store) (t : AcceptedSchema),
    Arguments.parse (Switch.ofCommand .compile) true arguments = .ok a ∧ a.has .help = false ∧
      callOf setting .compile a = .ok call ∧
      ResourceFile.load setting.store setting.files call.file = .ok (file, s) ∧
      compileAt setting call.file call.methods ⟨some [], []⟩ = (.ok c, journal) ∧
      file.definition = .null ∧ t.LiesAt s file.schema ∧
      references = (t.visits file.resource.model).filter fun x => x.tag.reference?.isSome
  nonempty : references ≠ []

/-- How a run ends that forbids fallbacks, next to the same run that does not. -/
structure EndsForReferences (setting : Setting) (references : List Visit) (strict free : Outcome) :
    Prop where
  ending : strict.ending = .strict
  status : strict.ending.status = 1
  output : strict.output = []
  files : strict.files = setting.files
  /-- One line for each reference, in order, and a line with their number. -/
  messages : strict.messages = printable (references.flatMap referenceLine)
    ++ printable (errorLine (Text.ofNat references.length ++ text " field(s) fell back to string"))
  same_lines : ∃ more, free.messages = printable (references.flatMap referenceLine) ++ more

theorem printable_append (a b : Text) : printable (a ++ b) = printable a ++ printable b :=
  List.flatMap_append

/-- The lines about fallbacks are those about the references among the fields. -/
theorem lines_of_visits (visits : List Visit) :
    (visits.filterMap Visit.fallback?).flatMap fallbackLine =
        (visits.filter fun x => x.tag.reference?.isSome).flatMap referenceLine ∧
      (visits.filterMap Visit.fallback?).length =
        (visits.filter fun x => x.tag.reference?.isSome).length := by
  induction visits with
  | nil => exact ⟨rfl, rfl⟩
  | cons x rest ih =>
    obtain ⟨lines, length⟩ := ih
    cases reference : x.tag.reference? with
    | none =>
      have none : x.fallback? = none := by rw [Visit.fallback?, reference]; rfl
      simp only [List.filterMap_cons, none, List.filter_cons, reference]
      exact ⟨lines, length⟩
    | some t =>
      have some : x.fallback? = some ⟨x.definition, x.field, t.name⟩ := by
        rw [Visit.fallback?, reference]
        rfl
      have line : referenceLine x = fallbackLine ⟨x.definition, x.field, t.name⟩ := by
        rw [referenceLine, some]
        rfl
      simp only [List.filterMap_cons, some, List.filter_cons, reference, Option.isSome_some, if_true,
        List.flatMap_cons, line, lines, List.length_cons, length]
      exact ⟨trivial, trivial⟩

section Main

variable {setting : Setting} {call : Call} {references : List Visit}

/-- What the fallbacks of a run are: those of the references among the fields of the schema. -/
theorem meetsReferences_or_nil {a : Arguments} {arguments : List Text} {c : Compiled}
    {journal : Journal}
    (parsed : Arguments.parse (Switch.ofCommand .compile) true arguments = .ok a)
    (plain : a.has .help = false) (fits : callOf setting .compile a = .ok call)
    (done : compileAt setting call.file call.methods ⟨some [], []⟩ = (.ok c, journal)) :
    journal.kept.getD [] = [] ∨
      ∃ references, MeetsReferences setting arguments references := by
  obtain ⟨k, rfl⟩ := exists_of_compileAt done
  by_cases none : k.visits.filterMap Visit.fallback? = []
  · exact .inl none
  · right
    obtain ⟨-, length⟩ := lines_of_visits k.visits
    have visited : k.visits ≠ [] := fun empty => none (by rw [empty]; rfl)
    obtain ⟨t, implicit, lies, -, same⟩ := k.defines.exists_schema visited
    rw [same] at length none
    refine ⟨_, ⟨a, call, c, _, k.file, k.store, t, parsed, plain, fits, k.loaded, done, implicit,
      lies, rfl⟩, fun empty => ?_⟩
    rw [empty] at length
    exact none (List.eq_nil_of_length_eq_zero length)

/-- The runs of a call that meets references: one is refused, the other is not unless it is strict
already. -/
theorem exists_of_meets {arguments : List Text}
    (meets : MeetsReferences setting arguments references) :
    ∃ a call c fallbacks,
      Arguments.parse (Switch.ofCommand .compile) true arguments = .ok a ∧ a.has .help = false ∧
        callOf setting .compile a = .ok call ∧
        fallbacks.flatMap fallbackLine = references.flatMap referenceLine ∧
        fallbacks.length = references.length ∧
        carryOut setting false { call with strict := true } =
          refusedFor setting.files fallbacks ∧
        (carryOut setting false call = refusedFor setting.files fallbacks ∨
          carryOut setting false call =
            deliver setting.files call (fallbacks.flatMap fallbackLine) c) := by
  obtain ⟨⟨a, call, c, journal, file, s, t, parsed, plain, fits, loaded, done, implicit, lies, rfl⟩,
    nonempty⟩ := meets
  have command := command_of_callOf fits
  obtain ⟨k, rfl⟩ := exists_of_compileAt done
  obtain ⟨rfl, rfl⟩ := Prod.mk.inj (Except.ok.inj (k.loaded.symm.trans loaded))
  obtain ⟨-, visited⟩ := k.defines.eq_of_liesAt implicit lies
  rw [visited] at done
  obtain ⟨lines, length⟩ := lines_of_visits (t.visits k.file.resource.model)
  have some : ((t.visits k.file.resource.model).filterMap Visit.fallback?).length ≠ 0 := by
    rw [length]
    exact fun zero => nonempty (List.eq_nil_of_length_eq_zero zero)
  refine ⟨a, call, c, _, parsed, plain, fits, lines, length, ?_, ?_⟩
  · rw [carryOut_compile _ { call with strict := true } command]
    simp only [done, Journal.noteAll, Option.map_some, List.nil_append, Option.getD_some]
    rw [if_pos (by simpa using some)]
  · rw [carryOut_compile _ call command]
    simp only [done, Journal.noteAll, Option.map_some, List.nil_append, Option.getD_some]
    split
    · exact .inl rfl
    · exact .inr rfl

/-- Without references a call is carried out alike, strict or not. -/
theorem carryOut_strict_of_not_meets {a : Arguments} {arguments : List Text}
    (parsed : Arguments.parse (Switch.ofCommand .compile) true arguments = .ok a)
    (plain : a.has .help = false) (fits : callOf setting .compile a = .ok call)
    (without : ¬ ∃ references, MeetsReferences setting arguments references) :
    carryOut setting false { call with strict := true } =
      carryOut setting false call := by
  have command := command_of_callOf fits
  rw [carryOut_compile _ { call with strict := true } command, carryOut_compile _ call command]
  rcases done : compileAt setting call.file call.methods ⟨some [], []⟩ with ⟨_ | c, journal⟩
  · rfl
  · rcases meetsReferences_or_nil parsed plain fits done with none | some
    · simp only [none]
      rw [if_neg (by simp), if_neg (by simp)]
      rfl
    · exact absurd some without

/-- The arguments with the option come to the same options and one more, or to the same error. -/
theorem adds_strict (before behind : List Text)
    (opened : Arguments.isOpen (Switch.ofCommand .compile) before = true) :
    Arguments.Adds strictGiven
      (Arguments.parse (Switch.ofCommand .compile) true (before ++ behind))
      (Arguments.parse (Switch.ofCommand .compile) true (before ++ text "--strict" :: behind)) :=
  Arguments.adds_parse rfl before behind opened

theorem runCommand_strict_of_not_meets (before behind : List Text)
    (opened : Arguments.isOpen (Switch.ofCommand .compile) before = true)
    (without : ¬ ∃ references, MeetsReferences setting (before ++ behind) references) :
    runCommand setting false .compile (before ++ text "--strict" :: behind) =
      runCommand setting false .compile (before ++ behind) := by
  have adds := adds_strict before behind opened
  rw [runCommand, runCommand]
  generalize parsed : Arguments.parse (Switch.ofCommand .compile) true (before ++ behind) = r at adds
  generalize Arguments.parse (Switch.ofCommand .compile) true
    (before ++ text "--strict" :: behind) = r' at adds
  cases adds with
  | error e => rfl
  | ok front back rest =>
    have help : Arguments.has ⟨front ++ strictGiven :: back, rest⟩ .help =
        Arguments.has ⟨front ++ back, rest⟩ .help := Arguments.has_of_ne nofun
    simp only [help, callOf_strict]
    cases plain : Arguments.has ⟨front ++ back, rest⟩ .help with
    | true => rfl
    | false =>
      cases fits : callOf setting .compile ⟨front ++ back, rest⟩ with
      | error e => rfl
      | ok call => exact carryOut_strict_of_not_meets parsed plain fits without

/-- A run that meets references, strict and not. -/
theorem exists_runs_of_meets {before behind : List Text}
    (opened : Arguments.isOpen (Switch.ofCommand .compile) before = true)
    (meets : MeetsReferences setting (before ++ behind) references) :
    ∃ fallbacks : List Fallback,
      fallbacks.flatMap fallbackLine = references.flatMap referenceLine ∧
        fallbacks.length = references.length ∧
        runCommand setting false .compile (before ++ text "--strict" :: behind) =
          refusedFor setting.files fallbacks ∧
        ∃ more, (runCommand setting false .compile (before ++ behind)).messages =
          fallbacks.flatMap fallbackLine ++ more := by
  obtain ⟨a, call, c, fallbacks, parsed, plain, fits, lines, length, refused, free⟩ :=
    exists_of_meets meets
  have adds := adds_strict before behind opened
  refine ⟨fallbacks, lines, length, ?_, ?_⟩
  · rw [parsed] at adds
    rw [runCommand]
    generalize Arguments.parse (Switch.ofCommand .compile) true
      (before ++ text "--strict" :: behind) = r' at adds
    cases adds with
    | ok front back rest =>
      have help : Arguments.has ⟨front ++ strictGiven :: back, rest⟩ .help =
          Arguments.has ⟨front ++ back, rest⟩ .help := Arguments.has_of_ne nofun
      rw [plain] at help
      simp only [help, callOf_strict, fits]
      exact refused
  · rw [runCommand, parsed]
    simp only [plain, fits]
    rcases free with refused | delivered
    · exact ⟨_, congrArg Outcome.messages refused⟩
    · obtain ⟨more, same⟩ :=
        exists_messages_of_deliver setting.files call (fallbacks.flatMap fallbackLine) c
      exact ⟨more, (congrArg Outcome.messages delivered).trans same⟩

/-- Forbidding fallbacks changes a run only if it meets references, wherever the option stands: such
a run then ends with an error after the same lines, and every other run stays as it is. -/
theorem strict_matters_for_references_only (setting : Setting) (before behind : List Text)
    (opened : Arguments.isOpen (Switch.ofCommand .compile) before = true) :
    (∀ references, MeetsReferences setting (before ++ behind) references →
      EndsForReferences setting references
        (run setting (text "compile" :: (before ++ text "--strict" :: behind)))
        (run setting (text "compile" :: (before ++ behind)))) ∧
    ((¬ ∃ references, MeetsReferences setting (before ++ behind) references) →
      run setting (text "compile" :: (before ++ text "--strict" :: behind)) =
        run setting (text "compile" :: (before ++ behind))) := by
  have named (arguments : List Text) : runFrom setting (text "compile" :: arguments) =
      runCommand setting false .compile arguments := runFrom_command setting .compile arguments
  constructor
  · intro references meets
    obtain ⟨fallbacks, lines, length, refused, more, free⟩ := exists_runs_of_meets opened meets
    refine ⟨?_, ?_, ?_, ?_, ?_, printable more, ?_⟩
    · simp only [run, named, refused]
      rfl
    · simp only [run, named, refused]
      rfl
    · simp only [run, named, refused]
      rfl
    · simp only [run, named, refused]
      rfl
    · simp only [run, named, refused, refusedFor, printable_append, lines, length]
    · simp only [run, named, free, printable_append, lines]
  · intro without
    simp only [run, named, runCommand_strict_of_not_meets before behind opened without]

end Main

/-! ## A schema with references, and the same schema shadowed -/

namespace StrictSample

/-- A resource with references in a schema and in a schema nested in it, one of them private. -/
def content : String :=
  "resource: \x7broute: /a, name: b, model_name: C\x7d\n" ++
  "schema: \x7bfields: \x7bx: [\x7bfields: \x7by: Oid, __z: Oid\x7d\x7d], w: ObjectId\x7d\x7d\n"

/-- A setting with a resource file of the given content. -/
def setting (content : String) : Setting where
  files := ⟨[([text "r.yaml"], .file ((Octets.encode? (text content)).getD []))]⟩
  format := none

/-- A run of the setting that compiles its file. -/
def compiling (content : String) (others : List Text) : Outcome :=
  run (setting content) (text "compile" :: ([text "r.yaml"] ++ others))

/-- The same schema next to an explicit definition. -/
def shadowed : String := content ++ "definition: \x7b\x7d\n"

end StrictSample

open StrictSample in
/-- In the sample the run is refused for two references; next to an explicit definition the same
schema does not matter. -/
theorem strict_runs_of_samples :
    Arguments.isOpen (Switch.ofCommand .compile) [text "r.yaml"] = true ∧
      (∃ references, MeetsReferences (setting content) [text "r.yaml"] references ∧
        EndsForReferences (setting content) references (compiling content [text "--strict"])
          (compiling content [])) ∧
      (compiling content [text "--strict"]).messages =
        text "Warning: C.x.y (Oid) is not supported, using \"string\"\n"
          ++ text "Warning: C.w (ObjectId) is not supported, using \"string\"\n"
          ++ text "Error: 2 field(s) fell back to string\n" ∧
      compiling shadowed [text "--strict"] = compiling shadowed [] := by
  have opened : Arguments.isOpen (Switch.ofCommand .compile) [text "r.yaml"] = true := by decide
  refine ⟨opened, ?_, by decide +kernel, ?_⟩
  · obtain ⟨meeting, agreeing⟩ :=
      strict_matters_for_references_only (setting content) [text "r.yaml"] [] opened
    by_cases meets : ∃ references, MeetsReferences (setting content) ([text "r.yaml"] ++ []) references
    · obtain ⟨references, meets⟩ := meets
      exact ⟨references, meets, meeting references meets⟩
    · have same : (compiling content [text "--strict"]).ending.status =
          (compiling content []).ending.status := by
        rw [compiling, compiling, agreeing meets]
      exact absurd same (by decide +kernel)
  · obtain ⟨meeting, agreeing⟩ :=
      strict_matters_for_references_only (setting shadowed) [text "r.yaml"] [] opened
    refine agreeing fun ⟨references, meets⟩ => ?_
    have failed : (compiling shadowed [text "--strict"]).ending.status = 1 :=
      (meeting references meets).status
    exact absurd failed (by decide +kernel)

end SwaggerDoc.CommandLine
