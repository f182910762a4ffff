import SwaggerDoc.Proofs.Json.Outside
import SwaggerDoc.Proofs.Render.Denoted

/-!
Documents in JSON that are no JSON.

A number without digits is written as a word of which JSON knows nothing. Strings are closed in
every document, so the word stands outside of them for all to see (`Render.Json.showsMark_value`): a
document is JSON if and only if all numbers that stand in it as values have digits
(`Render.isJson_iff`).
-/

namespace SwaggerDoc

namespace Render.Json

open SwaggerDoc.Json

variable {ws : List Text}

/-- All strings of the text are closed, and if the condition holds, a capital of a number without
digits stands outside of them. -/
def ShowsMark (w : Text) (given : Prop) : Prop :=
  ∃ front, LeavesOutside w front ∧ (given → ∃ x ∈ front, IsDigitlessMark x)

section Marks

variable {u v w : Text} {P Q : Prop}

theorem showsMark_of_hasNoMark (none : HasNoMark w) (never : ¬ P) : ShowsMark w P := by
  obtain ⟨front, leaves, -⟩ := none
  exact ⟨front, leaves, fun given => absurd given never⟩

/-- Characters that are no quotes show no mark. -/
theorem showsMark_of_noQuote (noQuote : 34 ∉ w) : ShowsMark w False :=
  ⟨w, .of_noQuote noQuote, False.elim⟩

theorem ShowsMark.append (first : ShowsMark u P) (second : ShowsMark v Q) :
    ShowsMark (u ++ v) (P ∨ Q) := by
  obtain ⟨front, leaves, shown⟩ := first
  obtain ⟨back, leaves', shown'⟩ := second
  refine ⟨front ++ back, leaves.append leaves', ?_⟩
  rintro (given | given)
  · obtain ⟨x, member, mark⟩ := shown given
    exact ⟨x, List.mem_append_left back member, mark⟩
  · obtain ⟨x, member, mark⟩ := shown' given
    exact ⟨x, List.mem_append_right front member, mark⟩

theorem ShowsMark.imp (shows : ShowsMark w P) (stronger : Q → P) : ShowsMark w Q := by
  obtain ⟨front, leaves, shown⟩ := shows
  exact ⟨front, leaves, fun given => shown (stronger given)⟩

theorem noQuote_newline (depth : Nat) : 34 ∉ newline depth := by simp [newline]

variable {α : Type} {R : α → Prop} {parts : List α}

theorem showsMark_join (here : List.Forall₂ (fun w a => ShowsMark w (R a)) ws parts) (depth : Nat) :
    ShowsMark (Text.join (44 :: newline depth) ws) (∃ a ∈ parts, R a) := by
  induction here with
  | nil => exact (showsMark_of_noQuote List.not_mem_nil).imp (by simp)
  | cons shows rest ih =>
    cases rest with
    | nil => exact shows.imp (by simp)
    | cons next rest =>
      have comma : 34 ∉ (44 :: newline depth : Text) := by simp [noQuote_newline]
      exact ((shows.append (showsMark_of_noQuote comma)).append ih).imp (by simp)

/-- Brackets show the marks of what stands between them. -/
theorem showsMark_bracketed (here : List.Forall₂ (fun w a => ShowsMark w (R a)) ws parts)
    {left right : CodePoint} (noQuote : 34 ∉ [left, right]) (depth : Nat) :
    ShowsMark (bracketed left right depth ws) (∃ a ∈ parts, R a) := by
  cases ws with
  | nil =>
    obtain rfl := List.forall₂_nil_left_iff.mp here
    exact (showsMark_of_noQuote noQuote).imp (by simp)
  | cons w ws =>
    have front : 34 ∉ (left :: newline (depth + 1) : Text) := by simp_all [noQuote_newline]
    have back : 34 ∉ [right] := by simp_all
    exact ((((showsMark_of_noQuote front).append (showsMark_join here (depth + 1))).append
      (showsMark_of_noQuote (noQuote_newline depth))).append (showsMark_of_noQuote back)).imp (by simp)

theorem showsMark_scalar {y : Scalar} (done : scalar y = .ok w)
    (characters : (Tree.scalar y).HasCharacters) :
    ShowsMark w (Tree.scalar y).HasDigitless := by
  by_cases digitless : (Tree.scalar y).HasDigitless
  · cases digitless with
    | nan =>
      obtain rfl := Except.ok.inj done
      have noQuote : 34 ∉ text "NaN" := by decide
      exact ⟨_, .of_noQuote noQuote, fun _ => ⟨78, List.mem_cons_self, .inr rfl⟩⟩
    | @infinite negative =>
      obtain rfl := Except.ok.inj done
      cases negative <;> exact ⟨_, .of_noQuote (by decide), fun _ => ⟨73, by decide, .inl rfl⟩⟩
  · obtain ⟨v, denotes, -⟩ := exists_denotes_of_scalar done characters digitless
    exact showsMark_of_hasNoMark denotes.hasNoMark digitless

theorem showsMark_member {k : Tree} {name : Text} (named : key k = .ok name)
    (characters : k.HasCharacters) (shows : ShowsMark w P) :
    ShowsMark (name ++ text ": " ++ w) P := by
  obtain ⟨pieces, rfl, -⟩ := exists_pieces_of_key named characters
  have quoted : ShowsMark (quoted pieces) False :=
    showsMark_of_hasNoMark (hasNoMark_quoted pieces) id
  exact ((quoted.append (showsMark_of_noQuote (by decide))).append shows).imp .inr

end Marks

mutual

/-- What is written of a tree shows a number without digits that stands in it. -/
theorem showsMark_value : (t : Tree) → {depth : Nat} → {w : Text} → value depth t = .ok w →
    t.Everywhere Tree.HasCharacters → ShowsMark w t.HasDigitless
  | .scalar y, _, w, done, characters => by
    rw [Tree.everywhere_scalar] at characters
    exact showsMark_scalar done characters
  | .list items, depth, w, done, characters => by
    obtain ⟨ws, parts, done⟩ := Except.exists_ok_of_bind done
    obtain rfl := Except.ok.inj done
    have here := showsMark_values items parts (Tree.everywhere_list.mp characters).2
    refine (showsMark_bracketed here (by decide) depth).imp ?_
    rintro (_ | _ | ⟨member, digitless⟩)
    exact ⟨_, member, digitless⟩
  | .tuple items, depth, w, done, characters => by
    obtain ⟨ws, parts, done⟩ := Except.exists_ok_of_bind done
    obtain rfl := Except.ok.inj done
    have here := showsMark_values items parts (Tree.everywhere_tuple.mp characters).2
    refine (showsMark_bracketed here (by decide) depth).imp ?_
    rintro (_ | _ | _ | ⟨member, digitless⟩)
    exact ⟨_, member, digitless⟩
  | .map entries, depth, w, done, characters => by
    obtain ⟨ws, parts, done⟩ := Except.exists_ok_of_bind done
    obtain rfl := Except.ok.inj done
    have here := showsMark_members entries parts (Tree.everywhere_map.mp characters).2
    refine (showsMark_bracketed here (by decide) depth).imp ?_
    rintro (_ | _ | _ | _ | ⟨member, digitless⟩)
    exact ⟨_, member, digitless⟩
  | .set _, _, _, done, _ | .date _, _, _, done, _ | .time _, _, _, done, _
  | .field _, _, _, done, _ | .schema _, _, _, done, _ | .resource _, _, _, done, _
  | .object, _, _, done, _ | .back _, _, _, done, _ => by cases done

theorem showsMark_values : (items : List Tree) → {depth : Nat} → {ws : List Text} →
    values depth items = .ok ws → (∀ t ∈ items, t.Everywhere Tree.HasCharacters) →
      List.Forall₂ (fun w (t : Tree) => ShowsMark w t.HasDigitless) ws items
  | [], _, ws, done, _ => by
    obtain rfl := Except.ok.inj done
    exact .nil
  | t :: rest, _, ws, done, characters => by
    obtain ⟨w, first, done⟩ := Except.exists_ok_of_bind done
    obtain ⟨more, later, done⟩ := Except.exists_ok_of_bind done
    obtain rfl := Except.ok.inj done
    rw [List.forall_mem_cons] at characters
    exact .cons (showsMark_value t first characters.1) (showsMark_values rest later characters.2)

theorem showsMark_members : (entries : List (Tree × Tree)) → {depth : Nat} → {ws : List Text} →
    members depth entries = .ok ws →
      (∀ e ∈ entries, e.1.Everywhere Tree.HasCharacters ∧ e.2.Everywhere Tree.HasCharacters) →
        List.Forall₂ (fun w (e : Tree × Tree) => ShowsMark w e.2.HasDigitless) ws entries
  | [], _, ws, done, _ => by
    obtain rfl := Except.ok.inj done
    exact .nil
  | (k, v) :: rest, _, ws, done, characters => by
    obtain ⟨name, named, done⟩ := Except.exists_ok_of_bind done
    obtain ⟨w, valued, done⟩ := Except.exists_ok_of_bind done
    obtain ⟨more, later, done⟩ := Except.exists_ok_of_bind done
    obtain rfl := Except.ok.inj done
    rw [List.forall_mem_cons] at characters
    have shows := showsMark_value v valued characters.1.2
    exact .cons (showsMark_member named (characters.1.1 k k.mem_parts_self) shows)
      (showsMark_members rest later characters.2)

end

end Render.Json

/-! ## Documents -/

namespace Render

variable {t : Tree} {w : Text}

/-- The texts in a tree have no other characters than what is written of it. -/
theorem hasCharacters_of_json (done : json t = .ok w) (characters : ∀ x ∈ w, Octets.IsCharacter x) :
    t.Everywhere Tree.HasCharacters := by
  obtain ⟨u, here, done⟩ := Except.exists_ok_of_bind done
  obtain rfl := Except.ok.inj done
  intro part member v same x listed
  by_contra other
  have special := Json.isSpecial_of_not_isCharacter other
  have absent : x ∉ u := fun inside => other (characters x (List.mem_append_left _ inside))
  have beyond : 127 ≤ x := Nat.not_lt.mp fun low =>
    other (Octets.isCharacter_of_lt (Nat.lt_trans low (by decide)))
  exact (special.not_mem_value_iff t here).mp absent part member v same beyond listed

/-- A document that can be encoded is JSON if and only if all numbers that stand in it as values
have digits. -/
theorem isJson_iff (done : json t = .ok w) (characters : ∀ x ∈ w, Octets.IsCharacter x) :
    SwaggerDoc.Json.IsJson w ↔ ¬ t.HasDigitless := by
  have inside := hasCharacters_of_json done characters
  obtain ⟨u, here, done⟩ := Except.exists_ok_of_bind done
  obtain rfl := Except.ok.inj done
  constructor
  · intro json digitless
    obtain ⟨front, leaves, shown⟩ := Json.showsMark_value t here inside
    obtain ⟨x, member, mark⟩ := shown digitless
    refine json.not_isDigitlessMark x ?_ mark
    rw [leaves [10]]
    exact List.mem_append_left _ member
  · intro digits
    obtain ⟨v, denotes, -⟩ := Json.exists_denotes t here inside digits
    exact ⟨v, ⟨[], rfl⟩, ⟨[10], rfl⟩, u, rfl, denotes⟩

end Render

end SwaggerDoc
