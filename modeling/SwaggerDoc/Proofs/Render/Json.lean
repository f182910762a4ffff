import SwaggerDoc.Proofs.Outcome
import SwaggerDoc.Proofs.Store.Parts
import SwaggerDoc.Proofs.Text.Basic
import SwaggerDoc.Proofs.Text.Octets
import SwaggerDoc.Render.Json

/-!
Documents in JSON.

A tree has a text in JSON if and only if every part of it has a form there (`Json.exists_value_iff`).
The text has the characters of the basic alphabet and line breaks, and beyond them just those of the
texts in the tree (`Json.not_mem_value_iff`).
-/

namespace SwaggerDoc

/-- A tree that has a form in JSON at its root: a scalar other than octets and integers of more than
4300 digits, a list, or a mapping whose keys are scalars. -/
def Tree.HasJson : Tree → Prop
  | .scalar (.int i) => i.natAbs < tenTo 4300
  | .scalar (.octets _) => False
  | .scalar _ | .list _ | .tuple _ => True
  | .map entries => ∀ e ∈ entries, ∃ x, e.1 = .scalar x
  | _ => False

namespace Render.Json

variable {depth : Nat} {t : Tree} {w : Text}

/-! ## What has a text -/

theorem exists_scalar_iff {x : Scalar} : (∃ w, scalar x = .ok w) ↔ (Tree.scalar x).HasJson := by
  cases x with
  | int i =>
    simp only [scalar, integerText?, Tree.HasJson]
    by_cases small : i.natAbs < tenTo 4300
    · rw [if_pos small]
      exact ⟨fun _ => small, fun _ => ⟨_, rfl⟩⟩
    · rw [if_neg small]
      exact ⟨fun ⟨_, failed⟩ => (nomatch failed), fun small' => absurd small' small⟩
  | octets o => exact ⟨fun ⟨_, failed⟩ => (nomatch failed), False.elim⟩
  | _ => exact ⟨fun _ => trivial, fun _ => ⟨_, rfl⟩⟩

theorem exists_key_iff {k : Tree} : (∃ w, key k = .ok w) ↔ (∃ x, k = .scalar x) ∧ k.HasJson := by
  cases k with
  | scalar x =>
    rw [and_iff_right ⟨x, rfl⟩, ← exists_scalar_iff]
    cases named : x.asText? with
    | some u =>
      have here : scalar x = .ok (string u) := by
        cases x <;> simp_all [Scalar.asText?, scalar]
      simp only [key, named, here]
    | none =>
      simp only [key, named]
      cases scalar x with
      | error f => exact ⟨fun ⟨_, failed⟩ => (nomatch failed), fun ⟨_, failed⟩ => (nomatch failed)⟩
      | ok u => exact ⟨fun _ => ⟨_, rfl⟩, fun _ => ⟨_, rfl⟩⟩
  | _ => exact ⟨fun ⟨_, failed⟩ => (nomatch failed), fun ⟨⟨_, other⟩, _⟩ => (nomatch other)⟩

theorem exists_bind_iff {α β : Type} {r : Except Fault α} {f : α → Except Fault β}
    (total : ∀ a, ∃ b, f a = .ok b) : (∃ b, r >>= f = .ok b) ↔ ∃ a, r = .ok a := by
  constructor
  · rintro ⟨b, done⟩
    obtain ⟨a, here, -⟩ := Except.exists_ok_of_bind done
    exact ⟨a, here⟩
  · rintro ⟨a, rfl⟩
    exact total a

theorem exists_value_iff_of_not {t : Tree} (none : ¬ t.HasJson)
    (fails : ∀ w, value depth t ≠ .ok w) :
    (∃ w, value depth t = .ok w) ↔ t.Everywhere Tree.HasJson :=
  ⟨fun ⟨w, done⟩ => absurd done (fails w), fun all => absurd (all t t.mem_parts_self) none⟩

mutual

/-- A tree has a text if and only if all its parts have a form. -/
theorem exists_value_iff : (t : Tree) → (depth : Nat) →
    ((∃ w, value depth t = .ok w) ↔ t.Everywhere Tree.HasJson)
  | .scalar x, _ => exists_scalar_iff.trans Tree.everywhere_scalar.symm
  | .list items, depth => by
    have form : (Tree.list items).HasJson := trivial
    rw [Tree.everywhere_list, and_iff_right form, ← exists_values_iff items (depth + 1)]
    exact exists_bind_iff fun _ => ⟨_, rfl⟩
  | .tuple items, depth => by
    have form : (Tree.tuple items).HasJson := trivial
    rw [Tree.everywhere_tuple, and_iff_right form, ← exists_values_iff items (depth + 1)]
    exact exists_bind_iff fun _ => ⟨_, rfl⟩
  | .map entries, depth => by
    rw [Tree.everywhere_map, ← exists_members_iff entries (depth + 1)]
    exact exists_bind_iff fun _ => ⟨_, rfl⟩
  | .set _, _ | .date _, _ | .time _, _ | .field _, _ | .schema _, _ | .resource _, _
  | .object, _ | .back _, _ => exists_value_iff_of_not id nofun

theorem exists_values_iff : (items : List Tree) → (depth : Nat) →
    ((∃ ws, values depth items = .ok ws) ↔ ∀ t ∈ items, t.Everywhere Tree.HasJson)
  | [], _ => ⟨fun _ => List.forall_mem_nil _, fun _ => ⟨[], rfl⟩⟩
  | t :: rest, depth => by
    rw [List.forall_mem_cons, ← exists_value_iff t depth, ← exists_values_iff rest depth]
    constructor
    · rintro ⟨ws, done⟩
      obtain ⟨w, first, done⟩ := Except.exists_ok_of_bind done
      obtain ⟨ws', later, -⟩ := Except.exists_ok_of_bind done
      exact ⟨⟨w, first⟩, ⟨ws', later⟩⟩
    · rintro ⟨⟨w, first⟩, ⟨ws, later⟩⟩
      exact ⟨w :: ws, by rw [values, first, later]; rfl⟩

theorem exists_members_iff : (entries : List (Tree × Tree)) → (depth : Nat) →
    ((∃ ws, members depth entries = .ok ws) ↔ (Tree.map entries).HasJson ∧
      ∀ e ∈ entries, e.1.Everywhere Tree.HasJson ∧ e.2.Everywhere Tree.HasJson)
  | [], _ => ⟨fun _ => ⟨List.forall_mem_nil _, List.forall_mem_nil _⟩, fun _ => ⟨[], rfl⟩⟩
  | (k, v) :: rest, depth => by
    have others := exists_members_iff rest depth
    have here := exists_value_iff v depth
    have keyed : (∃ x, k = .scalar x) → (k.Everywhere Tree.HasJson ↔ k.HasJson) := by
      rintro ⟨x, rfl⟩
      exact Tree.everywhere_scalar
    simp only [Tree.HasJson, List.forall_mem_cons] at others ⊢
    constructor
    · rintro ⟨ws, done⟩
      obtain ⟨name, named, done⟩ := Except.exists_ok_of_bind done
      obtain ⟨w, valued, done⟩ := Except.exists_ok_of_bind done
      obtain ⟨ws', later, -⟩ := Except.exists_ok_of_bind done
      obtain ⟨isScalar, form⟩ := exists_key_iff.mp ⟨name, named⟩
      obtain ⟨keys, parts⟩ := others.mp ⟨ws', later⟩
      exact ⟨⟨isScalar, keys⟩, ⟨(keyed isScalar).mpr form, here.mp ⟨w, valued⟩⟩, parts⟩
    · rintro ⟨⟨isScalar, keys⟩, ⟨form, valued⟩, parts⟩
      obtain ⟨name, named⟩ := exists_key_iff.mpr ⟨isScalar, (keyed isScalar).mp form⟩
      obtain ⟨w, valued⟩ := here.mpr valued
      obtain ⟨ws, later⟩ := others.mpr ⟨keys, parts⟩
      exact ⟨_ :: ws, by rw [members, named, valued, later]; rfl⟩

end

/-! ## The characters of a text -/

/-- A character that is neither basic nor a line break. -/
def IsSpecial (x : CodePoint) : Prop := x ≠ 10 ∧ (x < 32 ∨ 127 ≤ x)

variable {x : CodePoint}

/-- What is no character lies beyond the basic alphabet. -/
theorem isSpecial_of_not_isCharacter (other : ¬ Octets.IsCharacter x) : IsSpecial x := by
  have beyond : 0xD800 ≤ x := Nat.not_lt.mp fun low => other (Octets.isCharacter_of_lt low)
  have high : 127 ≤ x := Nat.le_trans (by decide) beyond
  exact ⟨fun same => absurd (same ▸ high) (by decide), .inr high⟩

theorem IsSpecial.not_mem (special : IsSpecial x) (basic : w.IsBasic) : x ∉ w := by
  intro member
  obtain ⟨least, greatest⟩ := basic x member
  rcases special.2 with low | high
  · exact Nat.not_le.mpr low least
  · exact Nat.not_le.mpr greatest high

theorem IsSpecial.not_mem_newline (special : IsSpecial x) : x ∉ newline depth := by
  rw [newline, List.mem_cons, not_or]
  exact ⟨special.1, special.not_mem (Text.isBasic_replicate _ (by decide))⟩

/-- A control character has an escape of basic characters, and so have the quote and the
backslash. Any other character stands for itself. -/
theorem IsSpecial.not_mem_character_iff (special : IsSpecial x) (c : CodePoint) :
    x ∉ character c ↔ (127 ≤ x → x ≠ c) := by
  by_cases escaped : c < 32 ∨ c = 34 ∨ c = 92
  · have table : ∀ c < 32, Text.IsBasic (character c) := by
      unfold Text.IsBasic
      decide
    have basic : Text.IsBasic (character c) := by
      rcases escaped with low | rfl | rfl
      · exact table c low
      · decide
      · decide
    refine ⟨fun _ high same => ?_, fun _ => special.not_mem basic⟩
    subst same
    rcases escaped with low | rfl | rfl
    · exact Nat.not_le.mpr low (Nat.le_trans (by decide) high)
    · exact absurd high (by decide)
    · exact absurd high (by decide)
  · obtain ⟨high, quote, backslash⟩ : 32 ≤ c ∧ c ≠ 34 ∧ c ≠ 92 := by
      simp only [not_or, Nat.not_lt] at escaped
      exact escaped
    have itself : character c = [c] := by
      have least (n : CodePoint) (low : n < 32) : c ≠ n := fun same => Nat.not_le.mpr low (same ▸ high)
      simp only [character, if_neg quote, if_neg backslash, if_neg (least 8 (by decide)),
        if_neg (least 9 (by decide)), if_neg (least 10 (by decide)), if_neg (least 12 (by decide)),
        if_neg (least 13 (by decide)), if_neg (Nat.not_lt.mpr high)]
    rw [itself, List.mem_singleton]
    refine ⟨fun other _ => other, fun other same => ?_⟩
    rcases special.2 with low | above
    · exact Nat.not_le.mpr low (same ▸ high)
    · exact other above same

theorem IsSpecial.not_mem_string_iff (special : IsSpecial x) (u : Text) :
    x ∉ string u ↔ (127 ≤ x → x ∉ u) := by
  have quote : x ≠ 34 := by
    rintro rfl
    exact absurd special.2 (by decide)
  simp only [string, List.cons_append, List.mem_cons, List.mem_append, List.mem_flatMap,
    List.not_mem_nil, or_false, quote, false_or, not_exists, not_and,
    special.not_mem_character_iff]
  exact ⟨fun all high member => all x member high rfl,
    fun absent c listed high same => absent high (same ▸ listed)⟩

/-- The special characters of a tree are those beyond the basic alphabet in its texts. -/
def Lacks (x : CodePoint) (t : Tree) : Prop := ∀ u, t = .scalar (.string u) → 127 ≤ x → x ∉ u

theorem lacks_of_ne {t : Tree} (other : ∀ u, t ≠ .scalar (.string u)) : Lacks x t :=
  fun u same => absurd same (other u)

theorem IsSpecial.not_mem_scalar_iff (special : IsSpecial x) {y : Scalar}
    (done : scalar y = .ok w) : x ∉ w ↔ Lacks x (.scalar y) := by
  have basic (other : ∀ u, y ≠ .string u) (basic : w.IsBasic) : x ∉ w ↔ Lacks x (.scalar y) :=
    iff_of_true (special.not_mem basic) (lacks_of_ne fun u same => other u (Tree.scalar.inj same))
  cases y with
  | string u =>
    obtain rfl := Except.ok.inj done
    refine (special.not_mem_string_iff u).trans ⟨fun absent v same => ?_, fun absent => absent u rfl⟩
    exact Scalar.string.inj (Tree.scalar.inj same) ▸ absent
  | null =>
    obtain rfl := Except.ok.inj done
    exact basic nofun (by decide)
  | bool b =>
    obtain rfl := Except.ok.inj done
    exact basic nofun (by cases b <;> decide)
  | int i =>
    simp only [scalar, integerText?] at done
    split at done
    · obtain rfl := Except.ok.inj done
      exact basic nofun (Text.isBasic_ofInt i)
    · cases done
  | float f =>
    obtain rfl := Except.ok.inj done
    exact basic nofun (jsonNumbers.isBasic_number (by decide) (by decide) f)
  | octets o => cases done
  | fieldType t =>
    obtain rfl := Except.ok.inj done
    exact basic nofun (by cases t <;> decide)
  | method m =>
    obtain rfl := Except.ok.inj done
    exact basic nofun (by cases m <;> decide)

/-- A key that is no text is written first. -/
theorem exists_of_key {y : Scalar} (noText : y.asText? = none) (done : key (.scalar y) = .ok w) :
    ∃ v, scalar y = .ok v ∧ w = string v := by
  simp only [key, noText] at done
  cases shown : scalar y with
  | error f =>
    rw [shown] at done
    cases done
  | ok v =>
    rw [shown] at done
    exact ⟨v, rfl, (Except.ok.inj done).symm⟩

theorem IsSpecial.not_mem_key_iff (special : IsSpecial x) {k : Tree} (done : key k = .ok w) :
    x ∉ w ↔ k.Everywhere (Lacks x) := by
  cases k with
  | scalar y =>
    rw [Tree.everywhere_scalar]
    have written (noText : y.asText? = none) : x ∉ w ↔ Lacks x (.scalar y) := by
      obtain ⟨v, shown, rfl⟩ := exists_of_key noText done
      have none : Lacks x (.scalar y) := lacks_of_ne fun u same => by
        obtain rfl := Tree.scalar.inj same
        cases noText
      have absent : x ∉ v := (special.not_mem_scalar_iff shown).mpr none
      exact iff_of_true ((special.not_mem_string_iff v).mpr fun _ => absent) none
    cases y with
    | string u => exact special.not_mem_scalar_iff done
    | fieldType t => exact special.not_mem_scalar_iff done
    | method m => exact special.not_mem_scalar_iff done
    | _ => exact written rfl
  | _ => cases done

theorem IsSpecial.not_mem_join_iff (special : IsSpecial x) (ws : List Text) :
    x ∉ Text.join (44 :: newline depth) ws ↔ ∀ w ∈ ws, x ∉ w := by
  have separator : x ∉ (44 :: newline depth : Text) := by
    rw [List.mem_cons, not_or]
    refine ⟨?_, special.not_mem_newline⟩
    rintro rfl
    exact absurd special.2 (by decide)
  induction ws with
  | nil => simp [Text.join]
  | cons w rest ih =>
    cases rest with
    | nil => simp [Text.join]
    | cons v rest =>
      have joined : Text.join (44 :: newline depth) (w :: v :: rest) =
          w ++ 44 :: newline depth ++ Text.join (44 :: newline depth) (v :: rest) := rfl
      rw [joined, List.mem_append, List.mem_append, not_or, not_or, and_iff_left separator]
      exact (and_congr_right fun _ => ih).trans (List.forall_mem_cons (p := (x ∉ ·))).symm

theorem IsSpecial.not_mem_bracketed_iff (special : IsSpecial x) {left right : CodePoint}
    (basic : Text.IsBasic [left, right]) (ws : List Text) :
    x ∉ bracketed left right depth ws ↔ ∀ w ∈ ws, x ∉ w := by
  have ends := special.not_mem basic
  rw [List.mem_cons, List.mem_singleton, not_or] at ends
  cases ws with
  | nil => simp [bracketed, ends]
  | cons w rest =>
    have joined : x ∉ Text.join (44 :: newline (depth + 1)) (w :: rest) ↔ ∀ v ∈ w :: rest, x ∉ v :=
      special.not_mem_join_iff _
    rw [← joined]
    simp only [bracketed, List.cons_append, List.mem_cons, List.mem_append, List.not_mem_nil,
      or_false, not_or, ends, special.not_mem_newline, not_false_eq_true, true_and]

mutual

/-- A special character is in the text of a tree if and only if it is in a text of the tree, beyond
the basic alphabet. -/
theorem IsSpecial.not_mem_value_iff (special : IsSpecial x) : (t : Tree) → {depth : Nat} →
    {w : Text} → value depth t = .ok w → (x ∉ w ↔ t.Everywhere (Lacks x))
  | .scalar y, _, w, done => by
    rw [Tree.everywhere_scalar]
    exact special.not_mem_scalar_iff done
  | .list items, depth, w, done => by
    obtain ⟨ws, parts, done⟩ := Except.exists_ok_of_bind done
    obtain rfl := Except.ok.inj done
    have here : Lacks x (.list items) := lacks_of_ne nofun
    rw [special.not_mem_bracketed_iff (by decide : Text.IsBasic [91, 93]), Tree.everywhere_list,
      and_iff_right here]
    exact IsSpecial.not_mem_values_iff special items parts
  | .tuple items, depth, w, done => by
    obtain ⟨ws, parts, done⟩ := Except.exists_ok_of_bind done
    obtain rfl := Except.ok.inj done
    have here : Lacks x (.tuple items) := lacks_of_ne nofun
    rw [special.not_mem_bracketed_iff (by decide : Text.IsBasic [91, 93]), Tree.everywhere_tuple,
      and_iff_right here]
    exact IsSpecial.not_mem_values_iff special items parts
  | .map entries, depth, w, done => by
    obtain ⟨ws, parts, done⟩ := Except.exists_ok_of_bind done
    obtain rfl := Except.ok.inj done
    have here : Lacks x (.map entries) := lacks_of_ne nofun
    rw [special.not_mem_bracketed_iff (by decide : Text.IsBasic [123, 125]), Tree.everywhere_map,
      and_iff_right here]
    exact IsSpecial.not_mem_members_iff special entries parts
  | .set _, _, _, done | .date _, _, _, done | .time _, _, _, done | .field _, _, _, done
  | .schema _, _, _, done | .resource _, _, _, done | .object, _, _, done
  | .back _, _, _, done => by cases done

theorem IsSpecial.not_mem_values_iff (special : IsSpecial x) : (items : List Tree) →
    {depth : Nat} → {ws : List Text} → values depth items = .ok ws →
      ((∀ w ∈ ws, x ∉ w) ↔ ∀ t ∈ items, t.Everywhere (Lacks x))
  | [], _, ws, done => by
    obtain rfl := Except.ok.inj done
    exact iff_of_true (List.forall_mem_nil _) (List.forall_mem_nil _)
  | t :: rest, _, ws, done => by
    obtain ⟨w, first, done⟩ := Except.exists_ok_of_bind done
    obtain ⟨more, later, done⟩ := Except.exists_ok_of_bind done
    obtain rfl := Except.ok.inj done
    rw [List.forall_mem_cons, List.forall_mem_cons, IsSpecial.not_mem_value_iff special t first,
      IsSpecial.not_mem_values_iff special rest later]

theorem IsSpecial.not_mem_members_iff (special : IsSpecial x) : (entries : List (Tree × Tree)) →
    {depth : Nat} → {ws : List Text} → members depth entries = .ok ws →
      ((∀ w ∈ ws, x ∉ w) ↔
        ∀ e ∈ entries, e.1.Everywhere (Lacks x) ∧ e.2.Everywhere (Lacks x))
  | [], _, ws, done => by
    obtain rfl := Except.ok.inj done
    exact iff_of_true (List.forall_mem_nil _) (List.forall_mem_nil _)
  | (k, v) :: rest, _, ws, done => by
    obtain ⟨name, named, done⟩ := Except.exists_ok_of_bind done
    obtain ⟨w, valued, done⟩ := Except.exists_ok_of_bind done
    obtain ⟨more, later, done⟩ := Except.exists_ok_of_bind done
    obtain rfl := Except.ok.inj done
    have colon : x ∉ text ": " := special.not_mem (by decide)
    rw [List.forall_mem_cons, List.forall_mem_cons, List.mem_append, List.mem_append, not_or, not_or,
      and_iff_left colon, special.not_mem_key_iff named, IsSpecial.not_mem_value_iff special v valued,
      IsSpecial.not_mem_members_iff special rest later]

end

end Render.Json

end SwaggerDoc
