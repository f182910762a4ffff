import SwaggerDoc.Proofs.Render.Json
import SwaggerDoc.Proofs.Yaml.Drawable
import SwaggerDoc.Proofs.Yaml.Encodable
import SwaggerDoc.Render.Document

/-!
What keeps data from being written as a document.

In both formats there are integers that are too long. YAML has a form for all other data. JSON has
none for octets, dates, times, sets, keys with parts and what contains itself, and a text that has
the half of a surrogate pair stands there as it is, so that it cannot be encoded
(`Store.exists_render_iff`).
-/

namespace SwaggerDoc

/-- What keeps data from being written in a format. -/
inductive Tree.Obstructs : Format → Tree → Prop
  /-- An integer of more than 4300 digits. -/
  | integer {format : Format} {i : Int} : tenTo 4300 ≤ i.natAbs → Obstructs format (.scalar (.int i))
  /-- A text with the half of a surrogate pair, or another number that is no character. -/
  | text {t : Text} {x : CodePoint} : x ∈ t → ¬ Octets.IsCharacter x →
    Obstructs .json (.scalar (.string t))
  | octets {o : Octets} : Obstructs .json (.scalar (.octets o))
  | date {d : Date} : Obstructs .json (.date d)
  | time {t : DateTime} : Obstructs .json (.time t)
  | set {items : List Tree} : Obstructs .json (.set items)
  /-- A key with parts. -/
  | key {entries : List (Tree × Tree)} {e : Tree × Tree} : e ∈ entries → (∀ x, e.1 ≠ .scalar x) →
    Obstructs .json (.map entries)
  /-- A container of the data themselves. -/
  | back {n : Nat} : Obstructs .json (.back n)

namespace Tree

variable {t : Tree}

theorem isDrawn_iff (datum : t.isDatum = true) : t.IsDrawn ↔ ¬ t.Obstructs .yaml := by
  rw [IsDrawn, and_iff_right datum]
  constructor
  · rintro short ⟨long⟩
    exact Nat.not_le.mpr (short _ rfl) long
  · rintro none i rfl
    exact Nat.not_le.mp fun long => none (.integer long)

theorem hasJson_of_not_obstructs (datum : t.isDatum = true) (none : ¬ t.Obstructs .json) :
    t.HasJson := by
  cases t with
  | scalar x =>
    cases x with
    | int i => exact Nat.not_le.mp fun long => none (.integer long)
    | octets o => exact none .octets
    | _ => trivial
  | list items => trivial
  | tuple items => trivial
  | map entries =>
    intro e member
    by_contra parts
    exact none (.key member fun x same => parts ⟨x, same⟩)
  | set items => exact none .set
  | date d => exact none .date
  | time t => exact none .time
  | back n => exact none .back
  | field attributes => cases datum
  | schema fields => cases datum
  | resource attributes => cases datum
  | object => cases datum

/-- Data have a form in JSON, and no characters but such, if and only if nothing obstructs them. -/
theorem hasJson_and_lacks_iff (datum : t.isDatum = true) :
    (t.HasJson ∧ ∀ x, ¬ Octets.IsCharacter x → Render.Json.Lacks x t) ↔ ¬ t.Obstructs .json := by
  constructor
  · rintro ⟨form, lacks⟩ obstructs
    cases obstructs with
    | integer long => exact Nat.not_le.mpr form long
    | @text u x member other =>
      have high : 127 ≤ x := Nat.not_lt.mp fun low =>
        other (Octets.isCharacter_of_lt (Nat.lt_trans low (by decide)))
      exact lacks x other u rfl high member
    | octets => exact form
    | date => exact form
    | time => exact form
    | set => exact form
    | key member parts =>
      obtain ⟨x, same⟩ := form _ member
      exact parts x same
    | back => exact form
  · intro none
    refine ⟨hasJson_of_not_obstructs datum none, ?_⟩
    rintro x other u rfl - member
    exact none (.text member other)

end Tree

/-! ## Documents -/

namespace Store

variable {s : Store} {v : Value} {t : Text}

/-- No control sequence begins in a document. -/
theorem not_mem_of_render {format : Format} (done : s.render v format = .ok t) : 0x1B ∉ t := by
  cases format with
  | yaml =>
    obtain ⟨d, -, done⟩ := Except.exists_ok_of_bind done
    obtain rfl := Except.ok.inj done
    exact fun escape => absurd (d.allWritten_document 0x1B escape).1 (by decide)
  | json =>
    obtain ⟨w, here, done⟩ := Except.exists_ok_of_bind done
    obtain rfl := Except.ok.inj done
    have escape : Render.Json.IsSpecial 0x1B := ⟨by decide, .inl (by decide)⟩
    have absent : 0x1B ∉ w := by
      refine (escape.not_mem_value_iff _ here).mpr fun part _ u _ high => ?_
      exact absurd high (by decide)
    intro member
    rcases List.mem_append.mp member with inside | last
    · exact absent inside
    · exact absurd (List.mem_singleton.mp last) (by decide)

theorem exists_yaml_iff (data : (s.unfold v).IsData) :
    (∃ t, s.render v .yaml = .ok t ∧ ∀ x ∈ t, Octets.IsCharacter x) ↔
      (s.unfold v).Everywhere fun part => ¬ part.Obstructs .yaml := by
  have drawn : (s.unfold v).Everywhere Tree.IsDrawn ↔
      (s.unfold v).Everywhere fun part => ¬ part.Obstructs .yaml :=
    forall₂_congr fun part member => Tree.isDrawn_iff (data part member)
  rw [← drawn, ← Yaml.Drawing.exists_draw_iff]
  constructor
  · rintro ⟨t, done, -⟩
    obtain ⟨d, here, -⟩ := Except.exists_ok_of_bind done
    exact ⟨d, here⟩
  · rintro ⟨d, here⟩
    have written := d.allWritten_document
    exact ⟨d.document, by rw [render, here]; rfl, fun x member => (written x member).isCharacter⟩

theorem exists_json_iff (data : (s.unfold v).IsData) :
    (∃ t, s.render v .json = .ok t ∧ ∀ x ∈ t, Octets.IsCharacter x) ↔
      (s.unfold v).Everywhere fun part => ¬ part.Obstructs .json := by
  have pointwise : ((s.unfold v).Everywhere fun part => ¬ part.Obstructs .json) ↔
      (s.unfold v).Everywhere Tree.HasJson ∧
        ∀ x, ¬ Octets.IsCharacter x → (s.unfold v).Everywhere (Render.Json.Lacks x) := by
    have parts := forall₂_congr fun part member => Tree.hasJson_and_lacks_iff (data part member)
    refine parts.symm.trans (Tree.everywhere_and.trans (and_congr_right fun _ => ?_))
    exact ⟨fun all x other part member => all part member x other,
      fun all part member x other => all x other part member⟩
  have special {x : CodePoint} (other : ¬ Octets.IsCharacter x) : Render.Json.IsSpecial x :=
    Render.Json.isSpecial_of_not_isCharacter other
  rw [pointwise, ← Render.Json.exists_value_iff _ 0]
  constructor
  · rintro ⟨t, done, characters⟩
    obtain ⟨w, here, done⟩ := Except.exists_ok_of_bind done
    obtain rfl := Except.ok.inj done
    refine ⟨⟨w, here⟩, fun x other => ((special other).not_mem_value_iff _ here).mp fun member => ?_⟩
    exact other (characters x (List.mem_append_left _ member))
  · rintro ⟨⟨w, here⟩, lacks⟩
    refine ⟨w ++ [10], by rw [render, Render.json, here]; rfl, fun x member => ?_⟩
    by_contra other
    rcases List.mem_append.mp member with inside | last
    · exact ((special other).not_mem_value_iff _ here).mpr (lacks x other) inside
    · obtain rfl := List.mem_singleton.mp last
      exact other (Octets.isCharacter_of_lt (by decide))

/-- Data have a document in a format that can be encoded if and only if no part of them obstructs
that. -/
theorem exists_render_iff (data : (s.unfold v).IsData) (format : Format) :
    (∃ t, s.render v format = .ok t ∧ ∀ x ∈ t, Octets.IsCharacter x) ↔
      (s.unfold v).Everywhere fun part => ¬ part.Obstructs format := by
  cases format with
  | yaml => exact exists_yaml_iff data
  | json => exact exists_json_iff data

end Store

end SwaggerDoc
