import SwaggerDoc.Proofs.Nesting
import SwaggerDoc.Proofs.Outcome
import SwaggerDoc.Proofs.Resource.Accepted
import SwaggerDoc.Proofs.Schema.Failing
import SwaggerDoc.Proofs.Yaml.Unfit
import SwaggerDoc.ResourceFile

/-!
Files that cannot be used.

A file that cannot be used is reported as such, with the path and the reason, unless something in it
stops reading in another way. What can do so is in the path, in the numbers that are spelt in the
text, in the depth to which the text is nested, in the scalars and their tags, or in the types of
the fields of the schema (`ResourceFile.Leaks`). Each stage of reading has its own causes, and the
stages follow each other (`load_reports_unless_leaking`).
-/

namespace SwaggerDoc

namespace Yaml

/-- A collection begins with the token. -/
def Token.opens : Token → Bool
  | .blockSequence | .blockMapping | .flowSequence | .flowMapping => true
  | _ => false

/-- A collection ends with the token. -/
def Token.closes : Token → Bool
  | .blockEnd | .flowSequenceEnd | .flowMappingEnd => true
  | _ => false

/-- What a node contains, by number. -/
def Node.parts : Node → List Nat
  | .scalar .. => []
  | .sequence _ items => items
  | .mapping _ entries => entries.flatMap fun entry => [entry.1, entry.2]

/-- One node contains another. -/
def Contains (g : Array Node) (i j : Nat) : Prop := ∃ n, g[i]? = some n ∧ j ∈ n.parts

/-- More is nested in a text than an interpreter is sure to follow. -/
inductive IsDeep (t : Text) : Prop where
  /-- So many collections are open at once. -/
  | opened {front behind : List Token} (cut : (Tokens.of (plainLines t)).tokens = front ++ behind)
    (many : front.countP Token.closes + sureDepth < front.countP Token.opens)
  /-- So many nodes contain each other. A node that has an alias is contained where that stands. -/
  | nested {g : Graph} {id : Nat} (built : Graph.ofText t = .ok g)
    (deep : ¬ NestsWithin (Contains g.nodes) sureDepth id)

/-- A hundred and one brackets in front of each other, none of which is closed. -/
example : IsDeep (List.replicate 101 91) :=
  .opened (List.append_nil _).symm (by decide +kernel)

end Yaml

open Yaml

namespace ResourceFile

open Checked

/-- The second value stands behind a key of the schema that the first one describes. -/
def DeclaresField (s : Store) (schema v : Value) : Prop :=
  ∃ attributes fields entries key, s.deref? schema = some (.map attributes) ∧
    lookupText? attributes (text "fields") = some fields ∧
    s.deref? fields = some (.map entries) ∧ (key, v) ∈ entries

/-- A field of the schema breaks off the check of it. -/
def SchemaBreaksOff (s : Store) (schema : Value) (fault : Fault) : Prop :=
  ∃ v, DeclaresField s schema v ∧ s.BreaksOff v fault

/-- What keeps a file that cannot be used from being reported. -/
inductive Leaks (s : Store) (tree : FileTree) (p : Path) : Fault → Prop where
  /-- The path has no octets. -/
  | unnameable (none : Path.isNameable p.shown = false) : Leaks s tree p .notEncodable
  /-- The path has a NUL in it. -/
  | nul (nul : ∃ part ∈ p.parts, 0 ∈ part) : Leaks s tree p .badValue
  /-- The text has a number in it that is too large. -/
  | spelling {t : Text} {fault : Fault} (read : readText tree p = .ok t)
    (misspelt : Misspelt (plainLines t) fault) : Leaks s tree p fault
  /-- Collections are nested deep, which can use up the calls that an interpreter allows inside each
  other: to follow them, to merge mappings, to find a default value, or to check the schemas in the
  types of fields. -/
  | deep {t : Text} (read : readText tree p = .ok t) (deep : IsDeep t) : Leaks s tree p .tooDeep
  /-- The document has a node without a value. -/
  | value {t : Text} {g : Graph} {fault : Fault} (read : readText tree p = .ok t)
    (built : Graph.ofText t = .ok g) (unfit : Unfit g.nodes fault) : Leaks s tree p fault
  /-- The section of the schema has a field the check of which breaks off. -/
  | schema {t : Text} {v schema : Value} {s' : Store} {entries : List (Value × Value)}
    {fault : Fault} (read : readText tree p = .ok t) (loaded : Yaml.load s t = .ok (v, s'))
    (mapping : s'.deref? v = some (.map entries))
    (given : lookupText? entries (text "schema") = some schema)
    (breaks : SchemaBreaksOff s' schema fault) : Leaks s tree p fault

section Stages

variable {s : Store} {tree : FileTree} {p : Path} {fault : Fault}

/-- A fault is reported: it says that the file cannot be used. -/
def IsReport (fault : Fault) : Prop := ∃ message issues, fault = .file message issues

theorem leaks_of_readText (failed : readText tree p = .error fault) :
    IsReport fault ∨ Leaks s tree p fault := by
  have refused_cases {reason : Fault} (holds : IsReport reason ∨ Leaks s tree p reason)
      (same : refused p reason = fault) : IsReport fault ∨ Leaks s tree p fault := by
    unfold refused at same
    split at same
    · exact same ▸ holds
    · next unnameable => exact .inr (same ▸ .unnameable (Bool.not_eq_true _ ▸ unnameable))
  unfold readText at failed
  dsimp only at failed
  split at failed
  · next nul =>
    refine refused_cases (.inr (.nul ?_)) (Except.error.inj failed)
    simpa using nul
  · split at failed
    · exact refused_cases (.inl ⟨_, _, rfl⟩) (Except.error.inj failed)
    · split at failed
      · exact .inl ⟨_, _, (Except.error.inj failed).symm⟩
      · cases failed

theorem breaksOffBy_checkModel {α : Type} {causes : Fault → Prop} {model : Text}
    {check : List (Value × Value) → Checked α} {v : Value}
    (breaks : ∀ entries, s.deref? v = some (.map entries) → (check entries).BreaksOffBy causes) :
    (checkModel s model check v).BreaksOffBy causes := by
  unfold checkModel
  split
  · next entries mapping => exact breaks entries mapping
  · exact breaksOffBy_refused _

theorem breaksOffBy_checkOptional {α : Type} {causes : Fault → Prop} {check : Value → Checked α}
    {v : Value} (breaks : (check v).BreaksOffBy causes) :
    (checkOptional check v).BreaksOffBy causes := by
  unfold checkOptional
  split
  · exact breaksOffBy_accepted _
  · exact breaks.map _

theorem breaksOffBy_checkSchema (s : Store) (v : Value) :
    (checkSchema s v).BreaksOffBy (SchemaBreaksOff s v) := by
  refine breaksOffBy_checkModel fun attributes mapping =>
    breaksOffBy_optional fun fields given => ?_
  refine Draft.breaksOffBy_ofFields fun entries key w map member fault failed => ?_
  refine ⟨w, ⟨attributes, fields, entries, key, mapping, given, map, member⟩, ?_⟩
  exact Draft.cause_of_failed (Nat.lt_add_of_pos_right (by decide)) failed

theorem breaksOffBy_checkDefinition {causes : Fault → Prop} (s : Store) (v : Value) :
    (checkDefinition s v).BreaksOffBy causes := by
  unfold checkDefinition
  split
  · exact breaksOffBy_accepted _
  · exact breaksOffBy_refused _

/-- Only the section of the schema can break the check of all sections off. -/
theorem breaksOffBy_checkSections (s : Store) (resource schema definition : Value) :
    (checkSections s resource schema definition).BreaksOffBy (SchemaBreaksOff s schema) := by
  have first : (checkModel s Resource.modelName (Resource.ofEntries s) resource).BreaksOffBy
      (SchemaBreaksOff s schema) :=
    breaksOffBy_checkModel fun entries _ => Resource.breaksOffBy_ofEntries s entries
  have second := breaksOffBy_checkOptional (breaksOffBy_checkSchema s schema)
  have third : (checkOptional (checkDefinition s) definition).BreaksOffBy
      (SchemaBreaksOff s schema) :=
    breaksOffBy_checkOptional (breaksOffBy_checkDefinition s definition)
  exact (((first.within _).map _).seq (second.within _)).seq (third.within _)

theorem leaks_of_ofValue {t shown : Text} {v : Value} {s' : Store}
    (read : readText tree p = .ok t) (loaded : Yaml.load s t = .ok (v, s'))
    (failed : ofValue s' shown v = .error fault) : IsReport fault ∨ Leaks s tree p fault := by
  unfold ofValue at failed
  dsimp only at failed
  split at failed
  · next entries mapping =>
    split at failed
    · exact .inl ⟨_, _, (Except.error.inj failed).symm⟩
    · next resource _ =>
      split at failed
      · cases failed
      · exact .inl ⟨_, _, (Except.error.inj failed).symm⟩
      · next fault' broken =>
        obtain rfl : fault' = fault := Except.error.inj failed
        have breaks := breaksOffBy_checkSections _ _ _ _ fault' broken
        cases given : lookupText? entries (text "schema") with
        | some schema =>
          rw [given] at breaks
          exact .inr (.schema read loaded mapping given breaks)
        | none =>
          rw [given] at breaks
          obtain ⟨_, ⟨_, _, _, _, null, -⟩, -⟩ := breaks
          cases null
  · exact .inl ⟨_, _, (Except.error.inj failed).symm⟩

end Stages

/-- What a cause comes to is no report. -/
theorem Leaks.kind {s : Store} {tree : FileTree} {p : Path} {fault : Fault}
    (leaks : Leaks s tree p fault) :
    fault ∈ [.notEncodable, .badValue, .wrongKind, .noKey, .noIndex, .noAttribute, .tooLarge,
      .tooDeep] := by
  cases leaks with
  | unnameable | nul | deep => decide
  | spelling read misspelt => cases misspelt <;> decide
  | value read built unfit =>
    cases unfit with
    | content tagged has unfit => cases unfit <;> decide
    | stamp | endless => decide
  | schema read loaded mapping given breaks =>
    obtain ⟨v, -, breaks⟩ := breaks
    cases breaks <;> decide

theorem Leaks.not_isReport {s : Store} {tree : FileTree} {p : Path} {fault : Fault}
    (leaks : Leaks s tree p fault) : ¬ IsReport fault := by
  rintro ⟨message, issues, rfl⟩
  simpa using leaks.kind

/-- A file is read, or it is reported that it cannot be used, or one of the causes keeps that from
being reported. -/
theorem load_reports_unless_leaking (s : Store) (tree : FileTree) (p : Path) :
    (∃ file, load s tree p = .ok file) ∨
      ∃ fault, load s tree p = .error fault ∧ (IsReport fault ∨ Leaks s tree p fault) := by
  cases outcome : load s tree p with
  | ok file => exact .inl ⟨file, rfl⟩
  | error fault =>
    refine .inr ⟨fault, rfl, ?_⟩
    rcases Except.error_of_bind outcome with unread | ⟨t, read, failed⟩
    · exact leaks_of_readText unread
    · split at failed
      · exact .inl ⟨_, _, (Except.error.inj failed).symm⟩
      · next f unloaded =>
        obtain rfl : f = fault := Except.error.inj failed
        rcases cause_of_load unloaded with misspelt | ⟨g, built, unfit⟩
        · exact .inr (.spelling read misspelt)
        · exact .inr (.value read built unfit)
      · next v s' loaded => exact leaks_of_ofValue read loaded failed

namespace UnreportedSample

/-- A file in which a word is said to be a whole number. -/
def files : FileTree :=
  ⟨[([text "r.yaml"], .file ((Octets.encode? (text "resource: !!int abc\n")).getD []))]⟩

/-- What reading the file comes to. -/
def outcome : Except Fault Unit := (load .empty files (Path.of (text "r.yaml"))).map fun _ => ()

theorem outcome_eq : outcome = .error .badValue := by
  decide +kernel

end UnreportedSample

open UnreportedSample in
/-- Not every file that cannot be used is reported. -/
theorem file_can_be_unreported :
    ¬ ∀ (s : Store) (tree : FileTree) (p : Path), (∃ file, load s tree p = .ok file) ∨
      ∃ fault, load s tree p = .error fault ∧ IsReport fault := by
  intro claim
  have failed := outcome_eq
  rcases claim .empty files (Path.of (text "r.yaml")) with
    ⟨file, read⟩ | ⟨fault, unread, message, issues, rfl⟩
  · rw [outcome, read] at failed
    cases failed
  · rw [outcome, unread] at failed
    cases failed

end ResourceFile

end SwaggerDoc
