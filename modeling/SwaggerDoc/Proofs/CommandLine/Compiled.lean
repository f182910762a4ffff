import SwaggerDoc.CommandLine.Run
import SwaggerDoc.Proofs.Definition.Trace
import SwaggerDoc.Proofs.ResourceFile.Accepted
import SwaggerDoc.Proofs.Schema.Kept

/-!
Compiling a resource file.

A file that is compiled has a document of its resource, made from the explicit definition or from
the schema. In the first case no field is visited; in the second the fields of the schema are, and
none of them goes wrong (`Compilation`). The fallbacks of the visited fields are all that is noted.
-/

namespace SwaggerDoc

namespace Report

variable {α β : Type}

/-- A run of two parts is a run of the first and then of the second. -/
theorem exists_run_of_bind {r : Report α} {f : α → Report β} {j j'' : Journal} {b : β}
    (done : (r >>= f) j = (.ok b, j'')) :
    ∃ a j', r j = (.ok a, j') ∧ f a j' = (.ok b, j'') := by
  simp only [Bind.bind, bind] at done
  split at done
  · cases done
  · next a j' same => exact ⟨a, j', same, done⟩

theorem exists_run_of_ofExcept {r : Except Fault α} {f : α → Report β} {j j' : Journal} {b : β}
    (done : (ofExcept r >>= f) j = (.ok b, j')) : ∃ a, r = .ok a ∧ f a j = (.ok b, j') := by
  obtain ⟨a, j'', first, done⟩ := exists_run_of_bind done
  obtain ⟨rfl, rfl⟩ := Prod.mk.inj first
  exact ⟨a, rfl, done⟩

end Report

/-- What the definition of the model in a file is made from, and the fields visited for it. An
explicit definition shadows the schema. -/
inductive ResourceFile.Defines (file : ResourceFile) (s : Store) :
    ModelDefinition → List Visit → Prop
  | given : file.definition ≠ .null → Defines file s (.given file.definition) []
  | made {t : AcceptedSchema} : file.definition = .null → t.LiesAt s file.schema →
    Defines file s (.made t.definition) (t.visits file.resource.model)

namespace ResourceFile.Defines

variable {file : ResourceFile} {s : Store} {definition : ModelDefinition} {visits : List Visit}

/-- Fields are visited only in a schema that is not shadowed. -/
theorem exists_schema (defines : file.Defines s definition visits) (visited : visits ≠ []) :
    ∃ t : AcceptedSchema, file.definition = .null ∧ t.LiesAt s file.schema ∧
      definition = .made t.definition ∧ visits = t.visits file.resource.model := by
  cases defines with
  | given => exact absurd rfl visited
  | made implicit lies => exact ⟨_, implicit, lies, rfl, rfl⟩

/-- Without an explicit definition the schema is all that counts. -/
theorem eq_of_liesAt (defines : file.Defines s definition visits) (implicit : file.definition = .null)
    {t : AcceptedSchema} (lies : t.LiesAt s file.schema) :
    definition = .made t.definition ∧ visits = t.visits file.resource.model := by
  cases defines with
  | given explicit => exact absurd implicit explicit
  | made _ lies' =>
    obtain rfl := lies'.unique lies
    exact ⟨rfl, rfl⟩

end ResourceFile.Defines

namespace CommandLine

/-- A resource with the methods that are asked for, if any are. -/
def withMethods (r : Resource) : Option Text → Except Fault Resource
  | none => .ok r
  | some t => do return { r with methods := ← Resource.methodsOf t }

/-- How a file is compiled: what is loaded, and what its document is made from. -/
structure Compilation (setting : Setting) (path : Path) (methods : Option Text) (c : Compiled) where
  file : ResourceFile
  /-- The data that the file is read from. -/
  data : Store
  store : Store
  resource : Resource
  definition : ModelDefinition
  visits : List Visit
  loaded : ResourceFile.load setting.store setting.files path = .ok (file, store)
  lies : file.LiesIn data store
  enables : withMethods file.resource methods = .ok resource
  defines : file.Defines store definition visits
  document : c.document = resource.document definition
  extended : store.Extends c.store
  closed : c.store.Closed
  passed : ∀ x ∈ visits, x.fault? = none

variable {setting : Setting} {path : Path} {methods : Option Text} {c : Compiled}

/-- The document takes only what the store holds. -/
theorem Compilation.heldBy (k : Compilation setting path methods c) :
    c.document.shape.HeldBy c.store := by
  rw [k.document]
  refine (k.resource.takes_document ?_).heldBy_of_isPlainScalar
  have defines := k.defines
  generalize k.definition = definition, k.visits = visits at defines
  cases defines with
  | given explicit =>
    rcases k.lies.definition with absent | ⟨entries, cell, -⟩
    · exact absurd absent explicit
    · exact Shape.takes_copy ((Store.Holds.of_deref? cell).mono k.extended)
  | made implicit lies => exact (lies.mono k.lies.closed k.extended).takes_definition k.closed

/-- With an accepted resource, the definition of a file leads to the document by way of the fields
that are visited. -/
theorem exists_of_compile {file : ResourceFile} {data s u : Store} {r : Resource} {place : Value}
    {d : Document} {j j' : Journal} (lies : file.LiesIn data s) (extended : s.Extends u)
    (resource : r.LiesAt u place) (model : r.model = file.resource.model)
    (done : u.compile place file.schema file.definition j = (.ok d, j')) :
    ∃ definition visits, file.Defines s definition visits ∧ d = r.document definition ∧
      (∀ x ∈ visits, x.fault? = none) ∧ j' = j.noteAll (visits.filterMap Visit.fallback?) := by
  by_cases given : file.definition = .null
  · rcases lies.schema with none | ⟨t, schema⟩
    · -- Without a schema there is no document.
      rw [given, none] at done
      obtain ⟨name, j'', -, done⟩ := Report.exists_run_of_bind done
      cases done
    · rw [given, resource.compile_made (schema.mono lies.closed extended)] at done
      obtain ⟨rfl, passed, noted⟩ := Visit.exists_of_pass done
      rw [model] at passed noted
      exact ⟨_, _, .made given schema, rfl, passed, noted⟩
  · rw [resource.compile_given given] at done
    obtain ⟨same, rfl⟩ := Prod.mk.inj done
    obtain rfl := Except.ok.inj same
    exact ⟨_, [], .given given, rfl, List.forall_mem_nil _, (Journal.noteAll_nil j).symm⟩

/-- A file that is compiled is compiled by way of its fields, and their fallbacks are what is noted.
-/
theorem exists_of_compileAt {j j' : Journal} (done : compileAt setting path methods j = (.ok c, j')) :
    ∃ k : Compilation setting path methods c,
      j' = j.noteAll (k.visits.filterMap Visit.fallback?) := by
  obtain ⟨⟨file, s⟩, loaded, done⟩ := Report.exists_run_of_ofExcept done
  obtain ⟨data, lies⟩ := ResourceFile.exists_liesIn_of_load (.empty setting.order) loaded
  cases methods with
  | none =>
    simp only [pure_bind] at done
    obtain ⟨d, j'', compiled, done⟩ := Report.exists_run_of_bind done
    obtain ⟨same, rfl⟩ := Prod.mk.inj done
    obtain rfl := Except.ok.inj same
    obtain ⟨definition, visits, defines, document, passed, noted⟩ :=
      exists_of_compile lies (.refl s) lies.resource rfl compiled
    exact ⟨⟨file, data, s, file.resource, definition, visits, loaded, lies, rfl, defines, document,
      .refl s, lies.closed, passed⟩, noted⟩
  | some names =>
    obtain ⟨ms, named, done⟩ := Report.exists_run_of_ofExcept done
    simp only [pure_bind] at done
    obtain ⟨d, j'', compiled, done⟩ := Report.exists_run_of_bind done
    obtain ⟨same, rfl⟩ := Prod.mk.inj done
    obtain rfl := Except.ok.inj same
    have extended := Resource.extends_place { file.resource with methods := ms } s
    have resource := Resource.liesAt_place { file.resource with methods := ms } s
    obtain ⟨closed, -, -⟩ := lies.closed.place_resource { file.resource with methods := ms }
    obtain ⟨definition, visits, defines, document, passed, noted⟩ :=
      exists_of_compile lies extended resource rfl compiled
    refine ⟨⟨file, data, s, { file.resource with methods := ms }, definition, visits, loaded, lies,
      ?_, defines, document, extended, closed, passed⟩, noted⟩
    rw [withMethods, named]
    rfl

end CommandLine

end SwaggerDoc
