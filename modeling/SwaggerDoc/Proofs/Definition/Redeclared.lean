import SwaggerDoc.Proofs.Definition.Depth
import SwaggerDoc.Proofs.Schema.Placed

/-!
Declarations are read as they were accepted.

What is mapped without a place is a draft, and what is mapped from a schema is a declaration that
was placed. Whatever is placed leads to what the outline of its draft leads to, and to nothing else,
however the schemas were altered that the draft takes over from the store.
-/

namespace SwaggerDoc

/-! ## Going deeper neither way -/

/-- Neither outline leads to anything that the other does not lead to. -/
def Outline.Matches (o o' : Outline) : Prop := o.LeadsTo o' ∧ o'.LeadsTo o

/-- The types are the same, or schemas inside them match. -/
def Tag.Matches (t t' : Tag) : Prop := t.LeadsTo t' ∧ t'.LeadsTo t

/-- The entries are the same up to types that match. -/
def Entry.Matches (e e' : Entry) : Prop := e.LeadsTo e' ∧ e'.LeadsTo e

theorem Outline.Matches.refl (o : Outline) : o.Matches o := ⟨.refl o, .refl o⟩

theorem Outline.Matches.trans {o o' o'' : Outline} (left : o.Matches o') (right : o'.Matches o'') :
    o.Matches o'' :=
  ⟨left.1.trans right.1, right.2.trans left.2⟩

theorem Tag.Matches.refl (t : Tag) : t.Matches t := ⟨.refl t, .refl t⟩

theorem Tag.Matches.nested {o o' : Outline} (inside : o.Matches o') :
    (Tag.nested o).Matches (.nested o') :=
  ⟨.nested inside.1, .nested inside.2⟩

theorem Entry.Matches.declared {t t' : Tag} {m : Modifiers} (type : t.Matches t') :
    (Entry.declared t m).Matches (.declared t' m) :=
  ⟨.declared type.1, .declared type.2⟩

theorem Outline.Matches.field {name : Name} {e e' : Entry} {rest rest' : Outline}
    (first : e.Matches e') (later : rest.Matches rest') :
    (Outline.field name e rest).Matches (.field name e' rest') :=
  ⟨.field first.1 fun _ _ => later.1, .field first.2 fun _ _ => later.2⟩

/-- What follows a broken entry does not matter. -/
theorem Outline.Matches.unbroken {name : Name} {e : Entry} {rest : Outline} :
    (Outline.field name e (if e.isBroken then .broken .tooDeep else rest)).Matches
      (.field name e rest) := by
  have first : e.LeadsTo e := by
    cases e with
    | declared => exact .declared (.refl _)
    | bare => exact .bare (.refl _)
    | broken => exact .broken _
  refine ⟨.field first fun whole _ => ?_, .field first fun whole _ => ?_⟩
  all_goals
    rw [whole]
    exact .refl rest

/-! ## Reading what is placed -/

section Placed

variable {s u : Store}

theorem Outline.matches_read_of_extends (closed : s.Closed) (extends' : s.Extends u) {v : Value}
    (held : s.Holds v) : (read u v).Matches (read s v) :=
  ⟨read_leadsTo_of_extends closed extends' held, leadsTo_read_of_extends closed extends' held⟩

/-- A schema is read by its entries, each of which is read to the full depth again. -/
theorem Outline.matches_ofEntries (closed : u.Closed) {v : Value} {entries : List (Value × Value)}
    (found : u.schemaEntries? v = some entries) :
    (read u v).Matches (.ofEntries (.read u (read u)) entries) := by
  obtain ⟨fields, schema⟩ := Store.deref?_of_schemaEntries? found
  have held : u.Holds v := Store.Holds.of_deref? schema
  have deeper : readWithin u (u.size + 2) v = .ofEntries (.read u (read u)) entries := by
    simp only [Store.schemaEntries?, schema] at found
    split at found
    · next entries' map =>
      obtain rfl := Option.some.inj found
      rw [readWithin]
      simp only [schema, map]
      rfl
    · cases found
  rw [← deeper]
  exact ⟨leadsTo_readWithin closed (.refl u) (.refl u) (Nat.le_succ _) held,
    leadsTo_read_of_lt closed (by omega) held⟩

mutual

theorem TagDraft.matches_outline {v : Store} (before : s.Closed) (extends' : s.Extends v)
    (closed : u.Closed) : {d : TagDraft} → d.IsFit s s.Holds → (d.place v).2.Extends u →
      (Tag.read u (Outline.read u) (d.place v).1).Matches (d.outline s (Outline.read s))
  | .plain w, ⟨held, _, other⟩, kept => by
    have same : u.deref? w = s.deref? w := (extends'.trans kept).deref?_eq held
    have read : Tag.read u (Outline.read u) w = .plain w := by
      rw [Tag.read, same]
      split
      · next found => exact absurd found (other _)
      · next found => exact absurd found (other _)
      · rfl
    rw [TagDraft.place, read]
    exact .refl _
  | .list [], _, kept => by
    have cell : u.deref? (TagDraft.place v (.list [])).1 = some (.list []) :=
      kept.deref?_of_some (Store.deref?_alloc _ _)
    rw [Tag.read, cell]
    exact .refl _
  | .list (element :: rest), fit, kept => by
    have filled := (ElementDraft.extends_placeAll rest (element.place v).2).trans
      ((Store.extends_alloc _ _).trans kept)
    have cell : u.deref? (TagDraft.place v (.list (element :: rest))).1 =
        some (.list (ElementDraft.placeAll v (element :: rest)).1) :=
      kept.deref?_of_some (Store.deref?_alloc _ _)
    rw [Tag.read, cell]
    exact ElementDraft.matches_outline before extends' closed fit.1 filled

theorem ElementDraft.matches_outline {v : Store} (before : s.Closed) (extends' : s.Extends v)
    (closed : u.Closed) : {d : ElementDraft} → d.IsFit s s.Holds → (d.place v).2.Extends u →
      (Tag.ofFirst u (Outline.read u) (d.place v).1).Matches (d.outline s (Outline.read s))
  | .plain w, fit, kept =>
    have more := extends'.trans kept
    ⟨Tag.leadsTo_ofFirst more (.refl s)
        (fun _ inside => (Outline.matches_read_of_extends before more inside).1) fit.held,
      Tag.leadsTo_ofFirst (.refl s) more
        (fun _ inside => (Outline.matches_read_of_extends before more inside).2) fit.held⟩
  | .schema fields, fit, kept => by
    have found := kept.schemaEntries?_of_some
      (Store.schemaEntries?_placed (FieldDraft.placeAll v fields).2 (FieldDraft.placeAll v fields).1)
    obtain ⟨map, schema⟩ := Store.deref?_of_schemaEntries? found
    have filled := (Store.extends_alloc _ _).trans ((Store.extends_alloc _ _).trans kept)
    have inside := FieldDraft.matches_outlineAll before extends' closed fit filled
    rw [Tag.ofFirst, ElementDraft.place, schema]
    exact .nested ((Outline.matches_ofEntries closed found).trans inside)

theorem FieldDraft.matches_outline {v : Store} (before : s.Closed) (extends' : s.Extends v)
    (closed : u.Closed) : {d : FieldDraft} → d.IsFit s s.Holds → (d.place v).2.Extends u →
      (Entry.read u (Outline.read u) (d.place v).1).Matches (d.outline s (Outline.read s))
  | .stored w, ⟨f, cell⟩, kept => by
    have more := extends'.trans kept
    have held := Store.Holds.of_deref? cell
    have read : Entry.read u (Outline.read u) w = .stored u (Outline.read u) w := by
      rw [Entry.read, more.deref?_of_some cell]
    rw [FieldDraft.place, read]
    exact ⟨Entry.leadsTo_stored before more (.refl s)
        (fun _ inside => (Outline.matches_read_of_extends before more inside).1) held,
      Entry.leadsTo_stored before (.refl s) more
        (fun _ inside => (Outline.matches_read_of_extends before more inside).2) held⟩
  | .fresh tag o, fit, kept => by
    obtain ⟨f, cell, same, lies, filled⟩ := FieldDraft.exists_placed tag o v
    have read : Entry.read u (Outline.read u) ((FieldDraft.fresh tag o).place v).1 =
        .declared (.read u (Outline.read u) (tag.place v).1) o.modifiers := by
      rw [← (lies.mono kept).modifiers_eq, ← same]
      simp only [Entry.read, Entry.stored, kept.deref?_of_some cell]
    rw [read]
    exact .declared (TagDraft.matches_outline before extends' closed fit.1 (filled.trans kept))

theorem FieldDraft.matches_outlineAll {v : Store} (before : s.Closed) (extends' : s.Extends v)
    (closed : u.Closed) : {ds : List (Text × FieldDraft)} → FieldDraft.AllFit s s.Holds ds →
      (FieldDraft.placeAll v ds).2.Extends u →
      (Outline.ofEntries (.read u (Outline.read u)) (FieldDraft.placeAll v ds).1).Matches
        (FieldDraft.outlineAll s (Outline.read s) ds)
  | [], _, _ => .refl _
  | (name, d) :: rest, ⟨_, fits, fit⟩, kept => by
    have others := FieldDraft.extends_placeAll rest (d.place v).2
    have later := FieldDraft.matches_outlineAll before (extends'.trans (d.extends_place v)) closed
      fit kept
    have first := FieldDraft.matches_outline before extends' closed fits (others.trans kept)
    rw [FieldDraft.placeAll, Outline.ofEntries_text, FieldDraft.outlineAll]
    split
    · exact later
    · exact Outline.Matches.unbroken.trans (.field first later)

end

end Placed

end SwaggerDoc
