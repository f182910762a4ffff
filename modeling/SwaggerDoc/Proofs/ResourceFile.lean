import SwaggerDoc.Proofs.Nesting
import SwaggerDoc.Proofs.Schema.Validation
import SwaggerDoc.Proofs.Yaml.Loading
import SwaggerDoc.Render.Document
import SwaggerDoc.ResourceFile

/-!
Resource files that were written as documents.

A document of a resource and a definition is written, encoded, decoded and read as the same data
(`exists_document`). Whether a resource is accepted depends on the data alone
(`ofEntries_eq_of_stand`), so that the file is accepted like the resource was.
-/

namespace SwaggerDoc

open Yaml

/-- Data that are written as a document are read again. -/
theorem exists_document {s : Store} {entries : List (Text × Data)} {v : Value}
    {places : List Place} (nonempty : entries ≠ []) (stands : s.Stands (.map entries) v places)
    (written : (Data.map entries).Written) (nodup : places.Nodup)
    (legible : EntriesLegible 0 entries) :
    ∃ w octets, s.render v .yaml = .ok w ∧ Octets.encode? w = some octets ∧
      Octets.decode octets = .ok w ∧ ∀ t : Store, ∃ v' t' places',
        Yaml.load t w = .ok (v', t') ∧ t'.Stands (.map entries) v' places' := by
  obtain ⟨drawing, drawn, shows, alone⟩ := Drawing.draw_of_stands stands written nodup
  obtain ⟨w, same, laid⟩ := document_of_shows nonempty shows alone legible
  have allWritten : AllWritten (w ++ newLine 0) := by
    have lines := laid.allWritten entries
    exact fun x member => lines x (by simpa [or_comm] using member)
  have graph : Graph.ofText (w ++ newLine 0) =
      .ok ⟨((Data.map entries).nodesFrom 0).toArray, some 0⟩ := by
    rw [allWritten.ofText_eq, tokens_of_document nonempty laid legible, Graph.ofTokens_tokens]
  have there : (Data.map entries).At ((Data.map entries).nodesFrom 0).toArray 0 := by
    simpa using (Data.map entries).at_nodesFrom written [] []
  obtain ⟨octets, encoded⟩ := Octets.exists_encode fun x member => (allWritten x member).isCharacter
  refine ⟨w ++ newLine 0, octets, ?_, encoded, Octets.decode_encode encoded,
    Yaml.exists_load graph there (stands.distinctKeys _)⟩
  rw [Store.render, drawn, ← same]
  rfl

/-! ## Attributes given by data -/

/-- The scalar that a value is, if it is one. -/
def Value.scalar? : Value → Option Scalar
  | .scalar x => some x
  | .ref _ => none

/-- The scalar that stands for data, if one does. -/
def Data.scalar? : Data → Option Scalar
  | .atom a => some a.scalar
  | _ => none

namespace Store

variable {s t : Store}

theorem Stands.scalar?_eq {d : Data} {v : Value} {places : List Place}
    (stands : s.Stands d v places) : v.scalar? = d.scalar? := by
  cases d with
  | atom a => rw [stands.1]; rfl
  | list items | map entries =>
    obtain ⟨p, values, inner, rfl, -⟩ := stands
    rfl

theorem StandAll.scalars_eq {items : List Data} {values : List Value} {places : List Place}
    (stands : s.StandAll items values places) :
    values.map Value.scalar? = items.map Data.scalar? := by
  induction items generalizing values places with
  | nil => rw [stands.1]; rfl
  | cons d items ih =>
    obtain ⟨v, more, first, others, rfl, -, here, later⟩ := stands
    rw [List.map_cons, List.map_cons, here.scalar?_eq, ih later]

/-- What is found under a key stands for what the data have under it. -/
theorem StandEntries.lookupText? {entries : List (Text × Data)} {values : List (Value × Value)}
    {places : List Place} (stands : s.StandEntries entries values places) (key : Text) :
    match entries.lookup key with
    | none => SwaggerDoc.lookupText? values key = none
    | some d => ∃ v inner, SwaggerDoc.lookupText? values key = some v ∧ s.Stands d v inner := by
  induction entries generalizing values places with
  | nil =>
    rw [stands.1]
    rfl
  | cons e entries ih =>
    obtain ⟨k, d⟩ := e
    obtain ⟨v, more, first, others, rfl, -, here, later⟩ := stands
    by_cases same : key = k
    · subst same
      have found : SwaggerDoc.lookupText? ((.ofText key, v) :: more) key = some v := by
        simp [SwaggerDoc.lookupText?, Value.asText?, Scalar.asText?]
      rw [List.lookup_cons_self]
      exact ⟨v, first, found, here⟩
    · have different : ¬ k = key := fun h => same h.symm
      have skip : SwaggerDoc.lookupText? ((.ofText k, v) :: more) key =
          SwaggerDoc.lookupText? more key := by
        simp [SwaggerDoc.lookupText?, Value.asText?, Scalar.asText?, different]
      rw [List.lookup_cons, beq_eq_false_iff_ne.mpr same, skip]
      exact ih later

end Store

namespace Check

variable {s t : Store} {α : Type} {check : Value → Checked α}

/-- A check that treats all containers alike depends on the scalar only. -/
theorem eq_of_scalar? (alike : ∀ p q, check (.ref p) = check (.ref q)) {v w : Value}
    (same : v.scalar? = w.scalar?) : check v = check w := by
  cases v with
  | scalar x =>
    cases w with
    | scalar y => rw [Option.some.inj same]
    | ref q => cases same
  | ref p =>
    cases w with
    | scalar y => cases same
    | ref q => exact alike p q

theorem all_zipIdx_eq (alike : ∀ p q, check (.ref p) = check (.ref q)) {values values' : List Value}
    (same : values.map Value.scalar? = values'.map Value.scalar?) (n : Nat) :
    Checked.all (fun (a, n) => (check a).within (.index n)) (values.zipIdx n) =
      Checked.all (fun (a, n) => (check a).within (.index n)) (values'.zipIdx n) := by
  induction values generalizing values' n with
  | nil =>
    cases values' with
    | nil => rfl
    | cons w values' => cases same
  | cons v values ih =>
    cases values' with
    | nil => cases same
    | cons w values' =>
      obtain ⟨first, later⟩ := List.cons.inj same
      have here : check v = check w := eq_of_scalar? alike first
      simp only [List.zipIdx_cons, Checked.all, ih later, here]

/-- A check of a list finds the same in all values that stand for the same data. -/
theorem list_eq_of_stands (alike : ∀ p q, check (.ref p) = check (.ref q)) {d : Data} {v w : Value}
    {places places' : List Place} (stands : s.Stands d v places) (stands' : t.Stands d w places') :
    list s check v = list t check w := by
  cases d with
  | atom a =>
    rw [stands.1, stands'.1]
    rfl
  | list items =>
    obtain ⟨p, values, inner, rfl, -, cell, parts⟩ := stands
    obtain ⟨q, values', inner', rfl, -, cell', parts'⟩ := stands'
    have same : values.map Value.scalar? = values'.map Value.scalar? :=
      parts.scalars_eq.trans parts'.scalars_eq.symm
    simp only [list, items?, cell, cell']
    exact all_zipIdx_eq alike same 0
  | map entries =>
    obtain ⟨p, values, inner, rfl, -, cell, -, -⟩ := stands
    obtain ⟨q, values', inner', rfl, -, cell', -, -⟩ := stands'
    have noModel : s.shownAttributes? p = none := by
      simp [Store.shownAttributes?, Store.attributes?, cell, Cell.attributes?]
    have noModel' : t.shownAttributes? q = none := by
      simp [Store.shownAttributes?, Store.attributes?, cell', Cell.attributes?]
    simp only [list, items?, cell, cell', noModel, noModel', Option.map_none]

variable {entries : List (Text × Data)} {es es' : List (Value × Value)}
  {places places' : List Place}

/-- An attribute that has to be there is found the same in all entries that stand for the same
data. -/
theorem required_eq_of_stand (check : Value → Checked α)
    (alike : ∀ p q, check (.ref p) = check (.ref q))
    (stand : s.StandEntries entries es places) (stand' : t.StandEntries entries es' places')
    (name : String) : required es name check = required es' name check := by
  have found := stand.lookupText? (text name)
  have found' := stand'.lookupText? (text name)
  cases given : entries.lookup (text name) with
  | none =>
    rw [given] at found found'
    rw [required, required, found, found']
  | some d =>
    rw [given] at found found'
    obtain ⟨v, inner, found, stands⟩ := found
    obtain ⟨w, inner', found', stands'⟩ := found'
    rw [required, required, found, found']
    have same : check v = check w :=
      eq_of_scalar? alike (stands.scalar?_eq.trans stands'.scalar?_eq.symm)
    simp only [same]

/-- A list that may be left out is found the same in all entries that stand for the same data. -/
theorem optional_list_eq_of_stand (check : Value → Checked α)
    (alike : ∀ p q, check (.ref p) = check (.ref q))
    (stand : s.StandEntries entries es places) (stand' : t.StandEntries entries es' places')
    (name : String) (absent : List α) :
    optional es name absent (list s check) = optional es' name absent (list t check) := by
  have found := stand.lookupText? (text name)
  have found' := stand'.lookupText? (text name)
  cases given : entries.lookup (text name) with
  | none =>
    rw [given] at found found'
    rw [optional, optional, found, found']
  | some d =>
    rw [given] at found found'
    obtain ⟨v, inner, found, stands⟩ := found
    obtain ⟨w, inner', found', stands'⟩ := found'
    rw [optional, optional, found, found']
    simp only [list_eq_of_stands alike stands stands']

end Check

/-- Whether entries are accepted for a resource depends on the data that they stand for only. -/
theorem Resource.ofEntries_eq_of_stand {s t : Store} {entries : List (Text × Data)}
    {es es' : List (Value × Value)} {places places' : List Place}
    (stand : s.StandEntries entries es places) (stand' : t.StandEntries entries es' places') :
    Resource.ofEntries s es = Resource.ofEntries t es' := by
  have route := Check.required_eq_of_stand checkRoute (fun _ _ => rfl) stand stand' "route"
  have name (key : String) :=
    Check.required_eq_of_stand Check.string (fun _ _ => rfl) stand stand' key
  have methods := Check.optional_list_eq_of_stand Check.method (fun _ _ => rfl) stand stand'
    "methods" []
  rw [Resource.ofEntries, Resource.ofEntries, route, name "name", name "model_name", methods]

/-! ## Stores that grow -/

section Mono

variable {s t : Store}

mutual

/-- Values stand for the same data in a store that has grown. -/
theorem Store.Stands.mono (grown : s.Extends t) : (d : Data) → {v : Value} → {places : List Place} →
    s.Stands d v places → t.Stands d v places
  | .atom _, _, _, stands => stands
  | .list items, _, _, ⟨p, values, inner, same, same', cell, parts⟩ =>
    ⟨p, values, inner, same, same', grown.cell?_of_some cell, parts.mono grown items⟩
  | .map entries, _, _, ⟨p, values, inner, same, same', cell, parts, nodup⟩ =>
    ⟨p, values, inner, same, same', grown.cell?_of_some cell, parts.mono grown entries, nodup⟩

theorem Store.StandAll.mono (grown : s.Extends t) : (items : List Data) → {values : List Value} →
    {places : List Place} → s.StandAll items values places → t.StandAll items values places
  | [], _, _, stands => stands
  | d :: rest, _, _, ⟨v, more, first, others, same, same', here, later⟩ =>
    ⟨v, more, first, others, same, same', here.mono grown d, later.mono grown rest⟩

theorem Store.StandEntries.mono (grown : s.Extends t) : (entries : List (Text × Data)) →
    {values : List (Value × Value)} → {places : List Place} →
    s.StandEntries entries values places → t.StandEntries entries values places
  | [], _, _, stands => stands
  | (_, d) :: rest, _, _, ⟨v, more, first, others, same, same', here, later⟩ =>
    ⟨v, more, first, others, same, same', here.mono grown d, later.mono grown rest⟩

end

end Mono

/-! ## Files -/

namespace ResourceFile

section ReadBack

variable {resource definition : List (Text × Data)} {r : Resource}

/-- A document of a resource and a definition. -/
def documentOf (resource definition : List (Text × Data)) : List (Text × Data) :=
  [(text "resource", .map resource), (text "definition", .map definition)]

theorem legible_documentOf (resourceLegible : EntriesLegible 2 resource)
    (definitionLegible : EntriesLegible 2 definition) :
    EntriesLegible 0 (documentOf resource definition) := by
  refine ⟨legible_of_basic (by decide) (by decide), ?_, ?_,
    legible_of_basic (by decide) (by decide), ?_, ?_, trivial⟩
  · exact fun _ => by decide
  · exact resourceLegible
  · exact fun _ => by decide
  · exact definitionLegible

/-- Values that stand for the same resource are accepted alike. -/
theorem checkModel_eq_of_stands {s t : Store} {v w : Value} {places places' : List Place}
    (stands : s.Stands (.map resource) v places) (stands' : t.Stands (.map resource) w places') :
    checkModel s Resource.modelName (Resource.ofEntries s) v =
      checkModel t Resource.modelName (Resource.ofEntries t) w := by
  obtain ⟨p, values, inner, rfl, -, cell, parts, -⟩ := stands
  obtain ⟨q, values', inner', rfl, -, cell', parts', -⟩ := stands'
  simp only [checkModel, Store.deref?, cell, cell']
  exact Resource.ofEntries_eq_of_stand parts parts'

/-- What is read from data with a resource that is accepted, a definition and no schema. -/
theorem exists_ofValue {t : Store} {v rv : Value} {places inner : List Place} {s : Store}
    {entries : List (Text × Data)}
    (accepted : checkModel s Resource.modelName (Resource.ofEntries s) rv = .accepted r)
    (offered : s.Stands (.map resource) rv inner)
    (taken : entries.lookup (text "resource") = some (.map resource))
    (defined : entries.lookup (text "definition") = some (.map definition))
    (noSchema : entries.lookup (text "schema") = none)
    (stands : t.Stands (.map entries) v places) (shown : Text) :
    ∃ file t' places', ofValue t shown v = .ok (file, t') ∧ file.resource = r ∧
      t'.Stands (.map definition) file.definition places' := by
  obtain ⟨p, values, _, rfl, -, cell, parts, -⟩ := stands
  have foundResource := parts.lookupText? (text "resource")
  have foundDefinition := parts.lookupText? (text "definition")
  have foundSchema := parts.lookupText? (text "schema")
  rw [taken] at foundResource
  rw [defined] at foundDefinition
  rw [noSchema] at foundSchema
  obtain ⟨w, _, foundResource, takenAs⟩ := foundResource
  obtain ⟨_, _, foundDefinition, q, held, places', rfl, rfl, cell', parts', nodup⟩ :=
    foundDefinition
  have accepts : checkModel t Resource.modelName (Resource.ofEntries t) w = .accepted r :=
    (checkModel_eq_of_stands takenAs offered).trans accepted
  have checked : checkSections t w .null (.ref q) = .accepted ⟨r, none, some held⟩ := by
    have defines : checkDefinition t (.ref q) = .accepted held := by
      simp only [checkDefinition, Store.deref?, cell']
    have kept : checkOptional (checkDefinition t) (.ref q) = .accepted (some held) := by
      rw [checkOptional, if_neg nofun, defines]
      rfl
    rw [checkSections, accepts, kept]
    rfl
  have read : ofValue t shown (.ref p) = .ok (Sections.place t ⟨r, none, some held⟩) := by
    simp only [ofValue, Store.deref?, cell, foundResource, foundDefinition, foundSchema,
      Option.getD, checked]
    rfl
  have grown : t.Extends ((r.place t).2.alloc (.map held)).2 :=
    ((t.extends_alloc _).trans (Store.extends_alloc _ _)).trans (Store.extends_alloc _ _)
  exact ⟨_, _, (r.place t).2.size :: places', read, rfl, _, held, places', rfl, rfl,
    Store.cell?_alloc_self _ _, parts'.mono grown definition, nodup⟩

/-- What a document is written as is read as the resource and the definition. -/
structure ReadsBack (s : Store) (v : Value) (r : Resource) (definition : List (Text × Data)) :
    Prop where
  /-- There is a text if nothing is nested too deep. -/
  written : (s.unfold v).depth ≤ sureDepth → ∃ w, s.render v .yaml = .ok w
  /-- The text is read, whatever the file is called and whatever the store holds into which it is
  read. -/
  read : ∀ w, s.render v .yaml = .ok w → ∃ octets, Octets.encode? w = some octets ∧
    ∀ (t : Store) (tree : FileTree) (path : Path), path.parts.any (·.contains 0) = false →
      tree.read path = .ok octets → ∃ file t' places, load t tree path = .ok (file, t') ∧
        file.resource = r ∧ t'.Stands (.map definition) file.definition places

/-- A document of a resource that is accepted and of a definition is read back if all texts and keys
come through. -/
theorem rendered_document_reads_back {s : Store} {v rv : Value} {places inner : List Place}
    (accepted : checkModel s Resource.modelName (Resource.ofEntries s) rv = .accepted r)
    (offered : s.Stands (.map resource) rv inner)
    (stands : s.Stands (.map (documentOf resource definition)) v places) (nodup : places.Nodup)
    (written : (Data.map (documentOf resource definition)).Written)
    (resourceLegible : EntriesLegible 2 resource)
    (definitionLegible : EntriesLegible 2 definition) : ReadsBack s v r definition := by
  obtain ⟨w, octets, rendered, encoded, decoded, reads⟩ := exists_document
    (List.cons_ne_nil _ _) stands written nodup
    (legible_documentOf resourceLegible definitionLegible)
  refine ⟨fun _ => ⟨w, rendered⟩, fun w' again => ?_⟩
  obtain rfl := Except.ok.inj (rendered.symm.trans again)
  refine ⟨octets, encoded, fun t tree path noNul held => ?_⟩
  have readable : readText tree path = .ok w := by
    simp only [readText, noNul, held, decoded, Bool.false_eq_true, if_false]
  obtain ⟨v', t', places', loads, stands'⟩ := reads t
  obtain ⟨file, t'', places'', made, same, defined⟩ :=
    exists_ofValue accepted offered rfl rfl rfl stands' path.shown
  refine ⟨file, t'', places'', ?_, same, defined⟩
  rw [load, readable]
  simp only [bind, Except.bind, loads]
  exact made

end ReadBack

namespace ReadBackSample

/-- A resource with one method. -/
def offer : List (Text × Data) :=
  [(text "route", .atom (.text (text "/a"))), (text "name", .atom (.text (text "b"))),
    (text "model_name", .atom (.text (text "C"))),
    (text "methods", .list [.atom (.text (text "get"))])]

/-- What the resource is accepted as. -/
def acceptedResource : Resource := ⟨text "/a", text "b", text "C", [.get]⟩

/-- A definition with a description. -/
def described (description : Text) : List (Text × Data) :=
  [(text "description", .atom (.text description))]

/-- A store with the document of the resource and the definition. -/
def store (description : Text) : Store :=
  ⟨#[.map [(.ofText (text "resource"), .ref 1), (.ofText (text "definition"), .ref 3)],
    .map [(.ofText (text "route"), .ofText (text "/a")),
      (.ofText (text "name"), .ofText (text "b")),
      (.ofText (text "model_name"), .ofText (text "C")),
      (.ofText (text "methods"), .ref 2)],
    .list [.ofText (text "get")],
    .map [(.ofText (text "description"), .ofText description)]], 1, []⟩

theorem accepted (description : Text) :
    checkModel (store description) Resource.modelName (Resource.ofEntries (store description))
      (.ref 1) = .accepted acceptedResource := rfl

theorem offer_stands (description : Text) :
    (store description).Stands (.map offer) (.ref 1) [1, 2] := by
  have methods : (store description).Stands (.list [.atom (.text (text "get"))]) (.ref 2) [2] :=
    ⟨2, _, [], rfl, rfl, rfl, _, [], [], [], rfl, rfl, ⟨rfl, rfl⟩, rfl, rfl⟩
  exact ⟨1, _, [2], rfl, rfl, rfl,
    ⟨_, _, [], [2], rfl, rfl, ⟨rfl, rfl⟩, _, _, [], [2], rfl, rfl, ⟨rfl, rfl⟩,
      _, _, [], [2], rfl, rfl, ⟨rfl, rfl⟩, _, _, [2], [], rfl, rfl, methods, rfl, rfl⟩,
    by decide⟩

theorem document_stands (description : Text) :
    (store description).Stands (.map (documentOf offer (described description))) (.ref 0)
      [0, 1, 2, 3] := by
  have defined : (store description).Stands (.map (described description)) (.ref 3) [3] :=
    ⟨3, _, [], rfl, rfl, rfl, ⟨_, [], [], [], rfl, rfl, ⟨rfl, rfl⟩, rfl, rfl⟩,
      List.pairwise_singleton _ _⟩
  have apart : [text "resource", text "definition"].Nodup := by decide
  exact ⟨0, _, [1, 2, 3], rfl, rfl, rfl,
    ⟨_, _, [1, 2], [3], rfl, rfl, offer_stands description, _, _, [3], [], rfl, rfl, defined,
      rfl, rfl⟩,
    apart⟩

theorem written (description : Text) :
    (Data.map (documentOf offer (described description))).Written :=
  ⟨⟨trivial, trivial, trivial, ⟨trivial, trivial⟩, trivial⟩, ⟨trivial, trivial⟩, trivial⟩

theorem offer_legible : EntriesLegible 2 offer := by
  have basic {column : Nat} {folds : Bool} {t : Text}
      (range : ∀ c ∈ t, (32 ≤ c ∧ c < 127) ∧ Page.needsEscape c = false) : Legible column folds t :=
    legible_of_basic (fun c member => (range c member).1) (fun c member => (range c member).2)
  exact ⟨basic (by decide), fun _ => by decide, basic (by decide),
    basic (by decide), fun _ => by decide, basic (by decide),
    basic (by decide), fun _ => by decide, basic (by decide),
    basic (by decide), fun _ => by decide, ⟨basic (by decide), trivial⟩, trivial⟩

/-- A word that could be taken for a truth value, and an accent behind a line break and a space. -/
def foldedText : Text := [111, 110, 10, 32, 233]

/-- A line break of which the reader makes a space. -/
def nextLine : Text := [97, 0x85, 98]

/-- The file with the text of the document. -/
def files (w : Text) : FileTree := ⟨[([text "r.yaml"], .file ((Octets.encode? w).getD []))]⟩

/-- The definition in the file with the text that the document is written as. -/
def readDefinition (description : Text) : Except Fault (Option Cell) := do
  let w ← (store description).render (.ref 0) .yaml
  let (file, t) ← load .empty (files w) (Path.of (text "r.yaml"))
  return t.deref? file.definition

/-- The line break is gone. -/
theorem readDefinition_nextLine : readDefinition nextLine =
    .ok (some (.map [(.ofText (text "description"), .ofText (text "a b"))])) := by
  decide +kernel

end ReadBackSample

open ReadBackSample in
/-- In the sample the document is read back. -/
theorem folded_description_reads_back :
    ReadsBack (store foldedText) (.ref 0) acceptedResource (described foldedText) := by
  have legible : EntriesLegible 2 (described foldedText) :=
    ⟨legible_of_basic (by decide) (by decide), fun _ => by decide,
      ⟨by decide, by decide, fun _ _ => .inl (by decide)⟩, trivial⟩
  exact rendered_document_reads_back (accepted foldedText) (offer_stands foldedText)
    (document_stands foldedText) (by decide) (written foldedText) offer_legible legible

open ReadBackSample in
/-- Not every document of a resource that is accepted is read back. -/
theorem description_can_be_lost :
    ¬ ∀ (s : Store) (v rv : Value) (places inner : List Place)
      (resource definition : List (Text × Data)) (r : Resource),
      checkModel s Resource.modelName (Resource.ofEntries s) rv = .accepted r →
      s.Stands (.map resource) rv inner →
      s.Stands (.map (documentOf resource definition)) v places → places.Nodup →
      (Data.map (documentOf resource definition)).Written → ReadsBack s v r definition := by
  intro claim
  have back := claim _ _ _ _ _ _ _ _ (accepted nextLine) (offer_stands nextLine)
    (document_stands nextLine) (by decide) (written nextLine)
  obtain ⟨w, rendered⟩ := back.written (by decide)
  obtain ⟨octets, encoded, reads⟩ := back.read w rendered
  have held : (files w).read (Path.of (text "r.yaml")) = .ok octets := by
    simp only [files, encoded, Option.getD_some]
    rfl
  obtain ⟨file, t, places, loads, -, p, values, inner, points, -, cell, parts, -⟩ :=
    reads .empty (files w) (Path.of (text "r.yaml")) (by decide) held
  have shown : readDefinition nextLine = .ok (some (.map values)) := by
    simp only [readDefinition, rendered, loads, points, bind, Except.bind, Store.deref?, cell]
    rfl
  obtain ⟨_, _, _, _, rfl, -, ⟨rfl, -⟩, rfl, -⟩ := parts
  rw [readDefinition_nextLine] at shown
  exact absurd shown (by decide)

end ResourceFile

end SwaggerDoc
