import SwaggerDoc.Document.Compile

/-!
What is left in a journal.

Whatever is asked of a store, and whether or not it comes to a result, the journal keeps what it had
and gets the fallbacks that are met on the way behind it.
-/

namespace SwaggerDoc

/-- The run adds fallbacks to the journal and does nothing else to it, whatever it comes to. -/
def Report.OnlyNotes {α : Type} (r : Report α) : Prop := ∀ j, ∃ noted, (r j).2 = j.noteAll noted

namespace Report

variable {α β : Type} {r : Report α} {f : α → Report β}

theorem onlyNotes_ofExcept (result : Except Fault α) : (ofExcept result).OnlyNotes :=
  fun j => ⟨[], j.noteAll_nil.symm⟩

theorem onlyNotes_pure (a : α) : (pure a : Report α).OnlyNotes := onlyNotes_ofExcept (.ok a)

theorem onlyNotes_fault (fault : Fault) : (Report.fault fault : Report α).OnlyNotes :=
  onlyNotes_ofExcept (.error fault)

theorem onlyNotes_fallback (f : Fallback) : (fallback f).OnlyNotes :=
  fun j => ⟨[f], j.note_eq_noteAll f⟩

theorem OnlyNotes.bind (first : r.OnlyNotes) (later : ∀ a, (f a).OnlyNotes) :
    (r >>= f).OnlyNotes := by
  intro j
  obtain ⟨noted, before⟩ := first j
  simp only [Bind.bind, Report.bind]
  split
  · next result =>
    rw [result] at before
    exact ⟨noted, before⟩
  · next a j' result =>
    rw [result] at before
    obtain ⟨noted', behind⟩ := later a j'
    refine ⟨noted ++ noted', ?_⟩
    rw [behind, ← Journal.noteAll_noteAll, ← before]

theorem OnlyNotes.blame (notes : r.OnlyNotes) (field : Name) : (r.blame field).OnlyNotes := by
  intro j
  obtain ⟨noted, same⟩ := notes j
  refine ⟨noted, ?_⟩
  unfold Report.blame
  split
  · next result =>
    rw [result] at same
    exact same
  · exact same

end Report

open Report

mutual

theorem Tag.onlyNotes_kind (name : DefinitionName) (target : Except Fault Text) :
    (tag : Tag) → (tag.kind name target).OnlyNotes
  | .nested element => by
    rw [Tag.kind]
    exact (Outline.onlyNotes_collect name element).bind fun c => onlyNotes_pure _
  | .list => onlyNotes_pure _
  | .plain _ => onlyNotes_ofExcept _

theorem Entry.onlyNotes_property (name inner : DefinitionName) (field : Name) :
    (entry : Entry) → (entry.property name inner field).OnlyNotes
  | .broken fault => onlyNotes_fault fault
  | .bare tag target => by
    rw [Entry.property]
    refine ((Tag.onlyNotes_kind inner target tag).blame field).bind fun kind? => ?_
    cases kind? with
    | none => exact onlyNotes_pure _
    | some kind => exact onlyNotes_fault _
  | .declared tag m => by
    rw [Entry.property]
    refine ((Tag.onlyNotes_kind inner m.target tag).blame field).bind fun kind? => ?_
    cases kind? with
    | none => exact onlyNotes_pure _
    | some kind =>
      refine (onlyNotes_ofExcept _).bind fun property => ?_
      refine (onlyNotes_ofExcept _).bind fun fallback? => ?_
      cases fallback? with
      | none => exact onlyNotes_pure _
      | some f => exact (onlyNotes_fallback f).bind fun _ => onlyNotes_pure _

theorem Outline.onlyNotes_collect (name : DefinitionName) :
    (o : Outline) → (o.collect name).OnlyNotes
  | .done => onlyNotes_pure _
  | .broken fault => onlyNotes_fault fault
  | .field field entry rest => by
    rw [Outline.collect]
    refine (onlyNotes_ofExcept _).bind fun inner => ?_
    refine (Entry.onlyNotes_property name inner field entry).bind fun property? => ?_
    refine (Outline.onlyNotes_collect name rest).bind fun later => ?_
    cases property? with
    | none => exact onlyNotes_pure _
    | some property => exact onlyNotes_pure _

end

theorem Outline.onlyNotes_define (name : DefinitionName) (o : Outline) :
    (o.define name).OnlyNotes :=
  (o.onlyNotes_collect name).bind fun _ => onlyNotes_pure _

namespace Store

variable (s : Store)

theorem onlyNotes_propertyOf (options : Value) (name : Text) :
    (s.propertyOf options name).OnlyNotes := by
  unfold propertyOf
  cases Entry.ofOptions s s.outlineOf options with
  | declared tag m => exact (tag.onlyNotes_kind _ _).bind fun _ => onlyNotes_pure _
  | bare tag target => exact (tag.onlyNotes_kind _ _).bind fun _ => onlyNotes_pure _
  | broken fault => exact onlyNotes_fault fault

theorem onlyNotes_definitionOf (schema : Value) (name : Text) :
    (s.definitionOf schema name).OnlyNotes :=
  (Outline.onlyNotes_define _ _).bind fun _ => onlyNotes_pure _

theorem onlyNotes_compile (resource schema definition : Value) :
    (s.compile resource schema definition).OnlyNotes := by
  unfold compile
  split
  · exact (onlyNotes_ofExcept _).bind fun name => onlyNotes_fault _
  · split
    · next r _ =>
      have model : (s.modelDefinition r.model schema definition).OnlyNotes := by
        unfold modelDefinition
        split
        · exact onlyNotes_pure _
        · exact (Outline.onlyNotes_define _ _).bind fun _ => onlyNotes_pure _
      exact model.bind fun _ => onlyNotes_ofExcept _
    · exact onlyNotes_fault _

end Store

end SwaggerDoc
