import SwaggerDoc.Proofs.CommandLine.Operand
import SwaggerDoc.Proofs.Definition.References
import SwaggerDoc.Proofs.Document.Selection
import SwaggerDoc.Proofs.Number.Decimal
import SwaggerDoc.Proofs.Text.Octets

/-!
What is said about a resource file, and the document that it is compiled to.

The summary of a file counts definitions, paths, operations and fallbacks. The first three are
counted on the document that compiling the file writes, where no key stands twice
(`Resource.sections`), and the fallbacks are the references in its definition.
-/

namespace SwaggerDoc

/-- A document taken apart: its definitions, and its paths with their operations. No key is there
twice. -/
structure Tree.Sections (document : Tree) where
  definitions : List (Tree × Tree)
  paths : List (Tree × List (Tree × Tree))
  shows : document = .map
    [ (.scalar (.string (text "definitions")), .map definitions),
      (.scalar (.string (text "paths")), .map (paths.map fun p => (p.1, .map p.2))) ]
  definitions_nodup : (definitions.map Prod.fst).Nodup
  paths_nodup : (paths.map Prod.fst).Nodup
  operations_nodup : ∀ p ∈ paths, (p.2.map Prod.fst).Nodup

/-- The parts of what shows the same. -/
def Tree.Sections.of {document document' : Tree} (x : document.Sections)
    (same : document' = document) : document'.Sections :=
  { x with shows := same.trans x.shows }

/-- The number of operations over all paths. -/
def Tree.Sections.operationCount {document : Tree} (x : document.Sections) : Nat :=
  x.paths.foldl (fun n p => n + p.2.length) 0

section Shown

open Shape

variable {s : Store} {r : Resource} {definition : ModelDefinition}

/-- The list of the instances of a model. -/
def Resource.listed (r : Resource) : Shape :=
  .record [("type", .ofString "array"), ("items", referenceShape r.model)]

/-- What an operation shows under its verb. -/
def shownOperation (s : Store) (o : String × Operation) : Tree × Tree :=
  (.scalar (.string (text o.1)), o.2.shape.tree s)

theorem PathItem.tree_shape (p : PathItem) :
    p.shape.2.tree s = .map (p.operations.map (shownOperation s)) := by
  rw [PathItem.shape, tree_record, shown, List.map_map]
  rfl

/-- What a path shows: its template, and its operations under their verbs. -/
def shownPath (s : Store) (p : PathItem) : Tree × List (Tree × Tree) :=
  (s.unfold p.path, p.operations.map (shownOperation s))

theorem Resource.tree_document (s : Store) (r : Resource) (definition : ModelDefinition) :
    (r.document definition).shape.tree s = .map
      [ (.scalar (.string (text "definitions")), .map
          [ (.scalar (.string r.model), definition.shape.tree s),
            (.scalar (.string (r.model ++ text "List")), r.listed.tree s) ]),
        (.scalar (.string (text "paths")), .map
          (((r.document definition).paths.map (shownPath s)).map fun p => (p.1, .map p.2))) ] := by
  have paths (p : PathItem) : p.shape.1 = p.path := rfl
  simp only [Document.shape, tree_record, shown, List.map_cons, List.map_nil, tree, treeEntries_eq,
    List.map_map, Function.comp_def, PathItem.tree_shape, paths]
  rfl

theorem Resource.model_ne_list (r : Resource) : r.model ≠ r.model ++ text "List" := by
  intro same
  have longer := congrArg List.length same
  rw [List.length_append] at longer
  have word : (text "List").length = 4 := rfl
  omega

theorem Resource.nodup_shownPaths (s : Store) (r : Resource) (definition : ModelDefinition) :
    (((r.document definition).paths.map (shownPath s)).map Prod.fst).Nodup := by
  have distinct : ((Document.pathsOf r.subject r.enabled).map PathItem.path).Nodup :=
    Document.nodup_paths
  have keys : ((Document.pathsOf r.subject r.enabled).map (shownPath s)).map Prod.fst =
      ((Document.pathsOf r.subject r.enabled).map PathItem.path).map s.unfold := by
    rw [List.map_map, List.map_map]
    rfl
  have written (v : Value) (listed : v ∈ (Document.pathsOf r.subject r.enabled).map PathItem.path) :
      ∃ t, v = .ofText t := by
    obtain ⟨p, member, rfl⟩ := List.mem_map.mp listed
    obtain ⟨onItem, rfl, -⟩ := Document.mem_pathsOf_subject.mp member
    exact ⟨_, rfl⟩
  rw [r.paths_document, keys]
  refine List.Nodup.map_on (fun v left w right same => ?_) distinct
  obtain ⟨a, rfl⟩ := written v left
  obtain ⟨b, rfl⟩ := written w right
  exact congrArg Value.scalar (Tree.scalar.inj same)

theorem Resource.nodup_shownOperations (s : Store) (r : Resource) (definition : ModelDefinition) :
    ∀ p ∈ (r.document definition).paths.map (shownPath s), (p.2.map Prod.fst).Nodup := by
  rw [r.paths_document]
  intro e listed
  obtain ⟨p, member, rfl⟩ := List.mem_map.mp listed
  have distinct := Document.nodup_verbs r.nodup_enabled member
  have keys : (p.operations.map (shownOperation s)).map Prod.fst =
      (p.operations.map Prod.fst).map fun verb => .scalar (.string (text verb)) := by
    rw [List.map_map, List.map_map]
    rfl
  rw [shownPath, keys]
  exact distinct.map fun a b same => text_injective (Scalar.string.inj (Tree.scalar.inj same))

/-- The sections of the document of a resource. -/
def Resource.sections (s : Store) (r : Resource) (definition : ModelDefinition) :
    ((r.document definition).shape.tree s).Sections where
  definitions :=
    [ (.scalar (.string r.model), definition.shape.tree s),
      (.scalar (.string (r.model ++ text "List")), r.listed.tree s) ]
  paths := (r.document definition).paths.map (shownPath s)
  shows := r.tree_document s definition
  definitions_nodup := List.nodup_cons.mpr ⟨fun member => r.model_ne_list
    (Scalar.string.inj (Tree.scalar.inj (List.mem_singleton.mp member))), List.nodup_singleton _⟩
  paths_nodup := r.nodup_shownPaths s definition
  operations_nodup := r.nodup_shownOperations s definition

/-- Every method that is enabled has one operation. -/
theorem Resource.operationCount_sections (s : Store) (r : Resource) (definition : ModelDefinition) :
    (r.sections s definition).operationCount = r.methods.dedup.length := by
  have paths : (r.sections s definition).paths =
      (Document.pathsOf r.subject r.enabled).map (shownPath s) :=
    congrArg (List.map _) (r.paths_document definition)
  have lengths (p : PathItem) : (shownPath s p).2.length = p.operations.length := List.length_map _
  rw [Tree.Sections.operationCount, paths, List.foldl_map, ← r.length_enabled]
  simp only [lengths]
  exact Document.operationCount_pathsOf

theorem Resource.length_paths_sections (s : Store) (r : Resource) (definition : ModelDefinition) :
    (r.sections s definition).paths.length = (r.document definition).paths.length :=
  List.length_map _

theorem Resource.operationCount_document (s : Store) (r : Resource) (definition : ModelDefinition) :
    (r.document definition).operationCount = (r.sections s definition).operationCount := by
  rw [r.operationCount_sections s, Document.operationCount, r.paths_document, ← r.length_enabled]
  exact Document.operationCount_pathsOf

end Shown

namespace CommandLine

variable {setting : Setting} {name : Text}

/-- The line that says what a document holds, in numbers. -/
def summaryLine (definitions paths operations fallbacks : Nat) : Text :=
  Text.ofNat definitions ++ text " definitions, " ++ Text.ofNat paths ++ text " paths, "
    ++ Text.ofNat operations ++ text " operations, " ++ Text.ofNat fallbacks
    ++ text " warnings.\n"

/-- The document that is written when a file is compiled to the output, with the file. -/
structure WrittenDocument (setting : Setting) (name : Text) where
  file : ResourceFile
  /-- The store that the file is loaded into. -/
  loaded : Store
  loads : ResourceFile.load setting.store setting.files (Path.of name) = .ok (file, loaded)
  /-- The document in the store in which it is placed. -/
  value : Value
  store : Store
  format : Format
  written : Text
  renders : store.render value format = .ok written
  output : (run setting [text "compile", name]).output = withoutSequences written
  sections : (store.unfold value).Sections
  /-- What the definition of the model shows, and that of the list of its instances. -/
  model : Tree
  listed : Tree
  definitions : sections.definitions =
    [ (.scalar (.string file.resource.model), model),
      (.scalar (.string (file.resource.model ++ text "List")), listed) ]

/-! ## Both commands -/

section Commands

variable {files : FileTree} {call : Call} {messages : Text} {c : Compiled}

/-- A document is delivered to the output if it is rendered and can be encoded. -/
theorem exists_of_deliver (output : call.output = none)
    (success : (deliver files call messages c).ending.status = 0) :
    ∃ t, (c.document.shape.place c.store).2.render (c.document.shape.place c.store).1 call.format =
        .ok t ∧ deliver files call messages c = ⟨.success, withoutSequences t, messages, files⟩ := by
  simp only [deliver, output, writeOutput] at success ⊢
  split at success
  · cases success
  · next t rendered =>
    refine ⟨t, rendered, ?_⟩
    split at success
    · next encodes => exact if_pos encodes
    · cases success

/-- The line with the numbers has only digits and letters of the basic alphabet in it. -/
theorem mem_summary {d : Document} {n : Nat} {x : CodePoint} (member : x ∈ summary d n) :
    x ≠ 0x1B ∧ Octets.IsCharacter x := by
  have digits {x n : Nat} (member : x ∈ Text.ofNat n) : 10 ≤ x ∧ x < 127 ∧ x ≠ 27 := by
    have digit := Text.isDigit_iff.mp (Text.isDigit_of_mem_ofNat member)
    omega
  have words : ∀ x ∈ text " definitions, " ++ text " paths, " ++ text " operations, "
      ++ text " warnings.\n", 10 ≤ x ∧ x < 127 ∧ x ≠ 27 := by decide
  have basic : 10 ≤ x ∧ x < 127 ∧ x ≠ 27 := by
    simp only [List.mem_append] at words
    simp only [summary, List.mem_append] at member
    rcases member with ((((((number | word) | number) | word) | number) | word) | number) | word
    · exact digits number
    · exact words x (by simp [word])
    · exact digits number
    · exact words x (by simp [word])
    · exact digits number
    · exact words x (by simp [word])
    · exact digits number
    · exact words x (by simp [word])
  obtain ⟨-, least, escape⟩ := basic
  exact ⟨escape, Octets.isCharacter_of_lt (Nat.lt_trans least (by decide))⟩

theorem writeOutput_summary (files : FileTree) (messages : Text) (d : Document) (n : Nat) :
    writeOutput files messages (summary d n) = ⟨.success, summary d n, messages, files⟩ := by
  have shown : withoutSequences (summary d n) = summary d n :=
    withoutSequences_of_not_mem fun member => (mem_summary member).1 rfl
  obtain ⟨octets, encoded⟩ := Octets.exists_encode fun x member => (mem_summary (d := d) (n := n) member).2
  simp only [writeOutput, shown, encoded, Option.isSome_some, if_true]

theorem summary_eq (d : Document) (n : Nat) :
    summary d n = summaryLine d.definitionCount d.paths.length d.operationCount n := rfl

/-- What compiling a file to the output takes: the file is compiled, and its document is written. -/
theorem exists_of_compile_success (other : name ≠ text "--help")
    (success : (run setting [text "compile", name]).ending.status = 0) :
    Arguments.read (Switch.ofCommand .compile) name = .ok .other ∧
      ∃ (call : Call) (c : Compiled) (journal : Journal) (t : Text),
        IsForFile setting .compile name call ∧
        compileAt setting (Path.of name) none ⟨some [], []⟩ = (.ok c, journal) ∧
        (c.document.shape.place c.store).2.render (c.document.shape.place c.store).1 call.format =
          .ok t ∧
        run setting [text "compile", name] = ⟨.success, withoutSequences t,
          printable ((journal.kept.getD []).flatMap fallbackLine), setting.files⟩ := by
  have named : runFrom setting [text "compile", name] = runCommand setting false .compile [name] :=
    runFrom_command setting .compile [name]
  have success' : (runCommand setting false .compile [name]).ending.status = 0 := by
    rw [← named]
    exact success
  rcases exists_call_of_success success' with help | ⟨call, reads, fits, carried⟩
  · exact absurd help other
  · have asks := isForFile_of_callOf fits
    rw [carried, carryOut_compile _ call asks.command, asks.file, asks.methods] at success'
    rw [carryOut_compile _ call asks.command, asks.file, asks.methods] at carried
    rcases done : compileAt setting (Path.of name) none ⟨some [], []⟩ with ⟨f | c, journal⟩
    · rw [done] at success'
      exact absurd (failed_status _ _ f ▸ success') (by decide)
    · simp only [done, asks.strict, Bool.false_and, Bool.false_eq_true, if_false] at success' carried
      obtain ⟨t, rendered, delivered⟩ := exists_of_deliver asks.output success'
      refine ⟨reads, call, c, journal, t, asks, rfl, rendered, ?_⟩
      simp only [run, named, carried, delivered]

/-- Checking a file that can be read and compiled writes what its document holds. -/
theorem run_check_of_compiled (reads : Arguments.read (Switch.ofCommand .check) name = .ok .other)
    (readable : checkFile setting ⟨[], [name]⟩ = .ok ()) {journal : Journal}
    (done : compileAt setting (Path.of name) none ⟨some [], []⟩ = (.ok c, journal)) :
    run setting [text "check", name] = ⟨.success,
      summary c.document (journal.kept.getD []).length,
      printable ((journal.kept.getD []).flatMap fallbackLine), setting.files⟩ := by
  have named : runFrom setting [text "check", name] = runCommand setting false .check [name] :=
    runFrom_command setting .check [name]
  obtain ⟨call, asks, carried⟩ := runCommand_check reads readable
  rw [carryOut_check _ call asks.command, asks.file, done] at carried
  simp only [run, named, carried, writeOutput_summary]

end Commands

/-- The fallbacks of a compilation are the references that its definition shows, if it is made from
a schema. -/
theorem Compilation.length_fallbacks {setting : Setting} {path : Path} {c : Compiled}
    {methods : Option Text} (k : Compilation setting path methods c) (s : Store) :
    (k.visits.filterMap Visit.fallback?).length =
      if k.file.definition = .null then (k.definition.shape.tree s).references else 0 := by
  have defines := k.defines
  generalize k.definition = definition, k.visits = visits at defines ⊢
  cases defines with
  | given explicit =>
    rw [if_neg explicit]
    rfl
  | @made t implicit lies =>
    rw [if_pos implicit, ← t.references_definition]
    exact t.definition.references_tree.symm

/-- Checking a file says what compiling it produces: whenever compiling a file succeeds, checking it
succeeds with the same messages and writes nothing but one line, with the number of definitions,
paths and operations in the document that compiling writes and the number of references in its
definition. -/
theorem check_summarizes_compiled_document (setting : Setting) (name : Text)
    (other : name ≠ text "--help")
    (success : (run setting [text "compile", name]).ending.status = 0) :
    ∃ d : WrittenDocument setting name,
      d.sections.operationCount = d.file.resource.methods.dedup.length ∧
      run setting [text "check", name] = ⟨.success,
        summaryLine 2 d.sections.paths.length d.sections.operationCount
          (if d.file.definition = .null then d.model.references else 0),
        (run setting [text "compile", name]).messages, setting.files⟩ := by
  obtain ⟨reads, call, c, journal, t, asks, done, rendered, ran⟩ :=
    exists_of_compile_success other success
  obtain ⟨k, rfl⟩ := exists_of_compileAt done
  have loads := k.loaded
  have resource : k.file.resource = k.resource := Except.ok.inj k.enables
  have shows : (c.document.shape.place c.store).2.unfold (c.document.shape.place c.store).1 =
      (k.resource.document k.definition).shape.tree c.store := by
    rw [Shape.unfold_place k.closed (.refl _) k.closed k.heldBy, k.document]
  have checked := run_check_of_compiled (Arguments.read_other reads) asks.readable done
  have counted := k.length_fallbacks c.store
  refine ⟨{
    file := k.file
    loaded := k.store
    loads
    value := (c.document.shape.place c.store).1
    store := (c.document.shape.place c.store).2
    format := call.format
    written := t
    renders := rendered
    output := by rw [ran]
    sections := (k.resource.sections c.store k.definition).of shows
    model := k.definition.shape.tree c.store
    listed := k.resource.listed.tree c.store
    definitions := by
      rw [resource]
      rfl }, ?_, ?_⟩
  · exact (k.resource.operationCount_sections c.store k.definition).trans
      (congrArg (fun r => r.methods.dedup.length) resource.symm)
  · have line : summary c.document (k.visits.filterMap Visit.fallback?).length = summaryLine 2
        (k.resource.sections c.store k.definition).paths.length
        (k.resource.sections c.store k.definition).operationCount
        (if k.file.definition = .null then (k.definition.shape.tree c.store).references else 0) := by
      rw [summary_eq, k.document, counted, k.resource.length_paths_sections,
        k.resource.operationCount_document c.store]
      rfl
    simp only [Journal.noteAll, Option.map_some, List.nil_append, Option.getD_some] at checked ran
    rw [line] at checked
    exact checked.trans (congrArg (Outcome.mk .success _ · setting.files)
      (congrArg Outcome.messages ran).symm)

/-! ## A schema in a schema, and a method that is listed twice -/

namespace SummarySample

/-- A resource file with a reference at the top and one in a nested schema. -/
def content : String :=
  "resource: \x7broute: /a, name: b, model_name: C, methods: [index, get, index]\x7d\n" ++
  "schema: \x7bfields: \x7bx: [\x7bfields: \x7by: Oid, z: Number\x7d\x7d], w: ObjectId\x7d\x7d\n"

def sampled : Setting where
  files := ⟨[([text "r.yaml"], .file ((Octets.encode? (text content)).getD []))]⟩
  format := none

end SummarySample

open SummarySample in
/-- Compiling the sample succeeds, and checking it counts what is written there. -/
theorem check_summarizes_sample :
    (run sampled [text "compile", text "r.yaml"]).ending.status = 0 ∧
      (∃ d : WrittenDocument sampled (text "r.yaml"),
        d.sections.operationCount = d.file.resource.methods.dedup.length ∧
        run sampled [text "check", text "r.yaml"] = ⟨.success,
          summaryLine 2 d.sections.paths.length d.sections.operationCount
            (if d.file.definition = .null then d.model.references else 0),
          (run sampled [text "compile", text "r.yaml"]).messages, sampled.files⟩) ∧
      (run sampled [text "check", text "r.yaml"]).output =
        text "2 definitions, 2 paths, 2 operations, 2 warnings.\n" := by
  have success : (run sampled [text "compile", text "r.yaml"]).ending.status = 0 := by
    decide +kernel
  exact ⟨success,
    check_summarizes_compiled_document sampled (text "r.yaml") (by decide) success,
    by decide +kernel⟩

end CommandLine

end SwaggerDoc
