import SwaggerDoc.Proofs.Document.Compiling
import SwaggerDoc.Proofs.Yaml.Described
import SwaggerDoc.ResourceFile

/-!
What an accepted file holds.

A file is read into a store of plain data, and its sections are placed behind them. The resource and
the schema then lie in the store as validation leaves them (`ResourceFile.LiesIn`), so that to
compile the file is either immediate or the pass over the fields of its schema
(`LiesIn.compile_eq`).
-/

namespace SwaggerDoc

namespace Store.IsPlain

variable {s : Store}

/-- What lies in plain data, and whatever is not there. -/
theorem gives (plain : s.IsPlain) : s.Gives fun v => v.IsPlain s.size where
  held := Value.IsPlain.holds
  null := rfl
  parts {v c} cell := by
    cases v with
    | scalar x => cases cell
    | ref p => exact plain.parts cell

/-- Plain data hold no declaration with an example. -/
theorem samples (plain : s.IsPlain) (given : Value → Prop) : s.Samples given :=
  fun _ _ cell => nomatch plain.cell cell

end Store.IsPlain

theorem Resource.extends_place (r : Resource) (s : Store) : s.Extends (r.place s).2 :=
  (s.extends_alloc _).trans (Store.extends_alloc _ _)

theorem Resource.samples_place (r : Resource) {s : Store} {given : Value → Prop}
    (samples : s.Samples given) : (r.place s).2.Samples given := by
  have listed := samples.alloc_data (c := .list (r.methods.map fun m => .scalar (.method m))) rfl
  refine listed.alloc fun f other => ?_
  cases other

namespace ResourceFile

/-- The file lies in a store, behind the plain data that it was read from. -/
structure LiesIn (file : ResourceFile) (data s : Store) : Prop where
  plain : data.IsPlain
  extended : data.Extends s
  closed : s.Closed
  resource : file.resource.LiesAt s file.place
  schema : file.schema = .null ∨ ∃ t : AcceptedSchema, t.LiesAt s file.schema
  /-- The examples in the schema are data of the file. -/
  samples : s.Samples fun v => v.IsPlain data.size
  definition : file.definition = .null ∨ ∃ entries,
    s.deref? file.definition = some (.map entries) ∧
      ∀ v ∈ (Cell.map entries).parts, v.IsPlain data.size

variable {file : ResourceFile} {data s : Store}

/-- What a check of a section accepts is left out or accepted by the check of what is there. -/
theorem of_checkOptional {α : Type} {check : Value → Checked α} {v : Value} {found : Option α}
    (done : checkOptional check v = .accepted found) :
    found = none ∨ ∃ a, found = some a ∧ check v = .accepted a := by
  unfold checkOptional at done
  split at done
  · exact .inl (Checked.accepted.inj done).symm
  · obtain ⟨a, accepts, rfl⟩ := Checked.exists_of_map done
    exact .inr ⟨a, rfl, accepts⟩

theorem allFit_of_checkSchema (plain : data.IsPlain) {v : Value} {d : SchemaDraft}
    (done : checkSchema data v = .accepted d) :
    FieldDraft.AllFit data (fun v => v.IsPlain data.size) d := by
  unfold checkSchema checkModel at done
  split at done
  · exact Draft.allFit_ofSchema plain.gives (Draft.comesToFit_ofMapping plain.gives _) done
  · cases done

theorem plain_of_checkDefinition (plain : data.IsPlain) {v : Value}
    {entries : List (Value × Value)} (done : checkDefinition data v = .accepted entries) :
    ∀ w ∈ (Cell.map entries).parts, w.IsPlain data.size := by
  unfold checkDefinition at done
  split at done
  · next found cell =>
    obtain rfl := Checked.accepted.inj done
    exact plain.gives.parts cell
  · cases done

/-- A schema is accepted where it is placed behind the data that it was read from. -/
theorem schema_liesAt (plain : data.IsPlain) {u : Store} (extended : data.Extends u)
    (closed : u.Closed) {d : SchemaDraft} (fit : FieldDraft.AllFit data data.Holds d) :
    u.Extends (SchemaDraft.place u d).2 ∧ (SchemaDraft.place u d).2.Closed ∧
      ∃ t : AcceptedSchema, t.LiesAt (SchemaDraft.place u d).2 (SchemaDraft.place u d).1 := by
  have fits : (ElementDraft.schema d).IsFit data data.Holds := fit
  exact ⟨d.extends_place u, (ElementDraft.closed_place extended closed fits).1,
    SchemaDraft.exists_liesAt plain.closed (Store.IsData.accepts plain.isData) extended closed fit⟩

/-- A definition that is left out stays away, any other gets a mapping of its own. -/
theorem liesIn_define {u : Store} {r : Resource} {place schema : Value} (plain : data.IsPlain)
    (extended : data.Extends u) (closed : u.Closed) (resource : r.LiesAt u place)
    (lies : schema = .null ∨ ∃ t : AcceptedSchema, t.LiesAt u schema)
    (samples : u.Samples fun v => v.IsPlain data.size) {entries : List (Value × Value)}
    (parts : ∀ v ∈ (Cell.map entries).parts, v.IsPlain data.size) :
    LiesIn ⟨r, place, schema, (u.alloc (.map entries)).1⟩ data (u.alloc (.map entries)).2 := by
  have grown := u.extends_alloc (.map entries)
  refine ⟨plain, extended.trans grown, closed.alloc fun v part => ?_, resource.mono grown, ?_,
    samples.alloc_data rfl, ?_⟩
  · exact (parts v part).holds.mono extended
  · exact lies.imp_right fun ⟨t, held⟩ => ⟨t, held.mono closed grown⟩
  · exact .inr ⟨entries, u.deref?_alloc _, parts⟩

/-- Accepted sections lie in the store in which they are placed. -/
theorem Sections.liesIn_place (plain : data.IsPlain) (x : Sections)
    (schema : ∀ d, x.schema = some d → FieldDraft.AllFit data (fun v => v.IsPlain data.size) d)
    (definition : ∀ entries, x.definition = some entries →
      ∀ v ∈ (Cell.map entries).parts, v.IsPlain data.size) :
    (x.place data).1.LiesIn data (x.place data).2 := by
  obtain ⟨r, fields, explicit⟩ := x
  obtain ⟨closed, -, -⟩ := plain.closed.place_resource r
  have extended := r.extends_place data
  have resource := r.liesAt_place data
  have samples := r.samples_place (plain.samples fun v => v.IsPlain data.size)
  cases fields with
  | none =>
    cases explicit with
    | none => exact ⟨plain, extended, closed, resource, .inl rfl, samples, .inl rfl⟩
    | some entries =>
      exact liesIn_define plain extended closed resource (.inl rfl) samples (definition entries rfl)
  | some d =>
    have fit := schema d rfl
    obtain ⟨grown, closed', t, lies⟩ :=
      schema_liesAt plain extended closed (fit.imp fun _ => Value.IsPlain.holds)
    have samples' := SchemaDraft.samples_place samples fit
    have kept := resource.mono grown
    have further := extended.trans grown
    cases explicit with
    | none => exact ⟨plain, further, closed', kept, .inr ⟨t, lies⟩, samples', .inl rfl⟩
    | some entries =>
      exact liesIn_define plain further closed' kept (.inr ⟨t, lies⟩) samples'
        (definition entries rfl)

/-- What is read from a value of plain data lies in the store. -/
theorem liesIn_of_ofValue {shown : Text} {v : Value} (plain : data.IsPlain)
    (done : ofValue data shown v = .ok (file, s)) : file.LiesIn data s := by
  unfold ofValue at done
  dsimp only at done
  split at done
  · split at done
    · cases done
    · split at done
      · next sections accepted =>
        unfold checkSections at accepted
        obtain ⟨_, definition, upToSchema, defined, rfl⟩ := Checked.exists_of_seq accepted
        obtain ⟨_, schema, upToResource, drafted, rfl⟩ := Checked.exists_of_seq upToSchema
        obtain ⟨r, -, rfl⟩ := Checked.exists_of_map upToResource
        have placed := Sections.liesIn_place plain ⟨r, schema, definition⟩ ?_ ?_
        · obtain ⟨rfl, rfl⟩ := Prod.mk.inj (Except.ok.inj done)
          exact placed
        · rintro d rfl
          rcases of_checkOptional (Checked.of_within drafted) with none | ⟨d', same, accepts⟩
          · cases none
          · obtain rfl := Option.some.inj same
            exact allFit_of_checkSchema plain accepts
        · rintro entries rfl
          rcases of_checkOptional (Checked.of_within defined) with none | ⟨found, same, accepts⟩
          · cases none
          · obtain rfl := Option.some.inj same
            exact plain_of_checkDefinition plain accepts
      · cases done
      · cases done
  · cases done

/-- A file that is loaded into plain data lies in the store. -/
theorem exists_liesIn_of_load {u : Store} {files : FileTree} {p : Path} (start : u.IsPlain)
    (loaded : load u files p = .ok (file, s)) : ∃ data, file.LiesIn data s := by
  obtain ⟨t, -, loaded⟩ := Except.exists_ok_of_bind loaded
  split at loaded
  · cases loaded
  · cases loaded
  · next v data read =>
    obtain ⟨plain, -⟩ := Yaml.load_isPlain start read
    exact ⟨data, liesIn_of_ofValue plain loaded⟩

end ResourceFile

end SwaggerDoc
