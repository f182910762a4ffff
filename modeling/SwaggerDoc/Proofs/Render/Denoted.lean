import SwaggerDoc.Proofs.Json.Unambiguous
import SwaggerDoc.Proofs.Render.Json
import SwaggerDoc.Proofs.Render.Numbers
import SwaggerDoc.Render.Document

/-!
What documents in JSON denote.

Every part of a document is written by a rule of the grammar, unless a number without digits stands
in it as a value (`Render.Json.exists_denotes`). Exact documents consist of nothing, truth values,
whole numbers, texts, lists and mappings whose keys are texts; such a document is all that its JSON
denotes (`Store.exact_document_is_denoted`).
-/

namespace SwaggerDoc

namespace Tree

/-- A not-a-number or an infinity stands in the tree as a value, and not only as a key. -/
inductive HasDigitless : Tree → Prop
  | nan {label : Nat} : HasDigitless (.scalar (.float (.nan label)))
  | infinite {negative : Bool} : HasDigitless (.scalar (.float (.infinite negative)))
  | item {t : Tree} {items : List Tree} : t ∈ items → HasDigitless t → HasDigitless (.list items)
  | part {t : Tree} {items : List Tree} : t ∈ items → HasDigitless t → HasDigitless (.tuple items)
  | value {e : Tree × Tree} {entries : List (Tree × Tree)} : e ∈ entries → HasDigitless e.2 →
    HasDigitless (.map entries)

/-- The texts at the root have no other numbers than those of characters. -/
def HasCharacters (t : Tree) : Prop := ∀ u, t = .scalar (.string u) → ∀ x ∈ u, Octets.IsCharacter x

/-- At its root the tree is nothing, a truth value, a whole number, a text of characters, a list or
a mapping whose keys are texts. -/
def IsExactHere : Tree → Prop
  | .scalar .null | .scalar (.bool _) | .scalar (.int _) | .list _ => True
  | .scalar (.string u) => ∀ x ∈ u, Octets.IsCharacter x
  | .map entries => ∀ e ∈ entries, ∃ u, e.1 = .scalar (.string u)
  | _ => False

/-- The tree consists of nothing, truth values, whole numbers, texts of characters, lists and
mappings whose keys are texts. It contains no container of itself. -/
def IsExact (t : Tree) : Prop := t.Everywhere IsExactHere

theorem IsExactHere.hasCharacters {t : Tree} (exact : t.IsExactHere) : t.HasCharacters := by
  rintro u rfl
  exact exact

theorem IsExact.not_hasDigitless {t : Tree} (exact : t.IsExact) : ¬ t.HasDigitless := by
  intro digitless
  induction digitless with
  | nan => exact everywhere_scalar.mp exact
  | infinite => exact everywhere_scalar.mp exact
  | item member _ ih => exact ih ((everywhere_list.mp exact).2 _ member)
  | part => exact (everywhere_tuple.mp exact).1
  | value member _ ih => exact ih ((everywhere_map.mp exact).2 _ member).2

end Tree

namespace Render.Json

open SwaggerDoc.Json

/-! ## Strings -/

/-- A control character has a number of four hexadecimal digits. -/
theorem exists_unit {c : CodePoint} (control : c < 32) :
    ∃ u : Unit16, u.digits = Text.hex 4 c ∧ u.number = c := by
  have table : ∀ c < 32, (Text.hex 4 c).length = 4 ∧
      (Text.hex 4 c).all (fun d => (Text.hexValue? d).isSome) = true ∧
      (Text.hex 4 c).foldl (fun n d => n * 16 + (Text.hexValue? d).getD 0) 0 = c := by decide
  obtain ⟨four, hexadecimal, number⟩ := table c control
  exact ⟨⟨Text.hex 4 c, four, hexadecimal⟩, rfl, number⟩

/-- A character of a string is written as a piece that stands for it, whatever follows. -/
theorem exists_piece {c : CodePoint} (small : c < 0x110000) :
    ∃ p : Piece, p.written = character c ∧ p.own = c ∧ ∀ q, p.arePair q = false := by
  have escape (e : Escape) (meaning : e.meaning = c) (written : [92, e.letter] = character c) :
      ∃ p : Piece, p.written = character c ∧ p.own = c ∧ ∀ q, p.arePair q = false :=
    ⟨.escape e, written, meaning, fun _ => rfl⟩
  have table : ∀ c < 32, c = 8 ∨ c = 9 ∨ c = 10 ∨ c = 12 ∨ c = 13 ∨
      character c = 92 :: 117 :: Text.hex 4 c := by decide
  rcases Nat.lt_or_ge c 32 with control | high
  · rcases table c control with rfl | rfl | rfl | rfl | rfl | written
    · exact escape .backspace rfl rfl
    · exact escape .tab rfl rfl
    · exact escape .lineFeed rfl rfl
    · exact escape .formFeed rfl rfl
    · exact escape .carriageReturn rfl rfl
    · obtain ⟨u, digits, number⟩ := exists_unit control
      have low : isHighHalf u.number = false := by
        have below : ¬ 0xD800 ≤ c := fun above => absurd (Nat.lt_of_le_of_lt above control) (by decide)
        simp [isHighHalf, number, below]
      refine ⟨.unit u, by rw [written, ← digits]; rfl, number, fun q => ?_⟩
      cases q <;> simp [Piece.arePair, low]
  by_cases quote : c = 34
  · subst quote
    exact escape .quote rfl rfl
  by_cases backslash : c = 92
  · subst backslash
    exact escape .backslash rfl rfl
  have ordinary : (32 ≤ c && c != 34 && c != 92 && c < 0x110000) = true := by
    simp [high, quote, backslash, small]
  have least (n : CodePoint) (low : n < 32) : c ≠ n := fun same => Nat.not_le.mpr low (same ▸ high)
  refine ⟨.raw c ordinary, ?_, rfl, fun _ => rfl⟩
  simp [Piece.written, character, quote, backslash, least, Nat.not_lt.mpr high]

/-- A text is written as a string that denotes it. -/
theorem exists_pieces {u : Text} (small : ∀ x ∈ u, x < 0x110000) :
    ∃ pieces, quoted pieces = string u ∧ meaning pieces = u := by
  suffices spelt : ∃ pieces, pieces.flatMap Piece.written = u.flatMap character ∧ meaning pieces = u by
    obtain ⟨pieces, written, denotes⟩ := spelt
    exact ⟨pieces, by rw [quoted, written]; rfl, denotes⟩
  induction u with
  | nil => exact ⟨[], rfl, rfl⟩
  | cons c u ih =>
    obtain ⟨first, later⟩ := List.forall_mem_cons.mp small
    obtain ⟨p, written, own, alone⟩ := exists_piece first
    obtain ⟨pieces, others, denotes⟩ := ih later
    refine ⟨p :: pieces, by rw [List.flatMap_cons, List.flatMap_cons, written, others], ?_⟩
    cases pieces with
    | nil => rw [meaning, own, ← denotes, meaning]
    | cons q pieces => rw [meaning, alone, if_neg Bool.false_ne_true, own, denotes]

/-! ## Brackets -/

/-- The line break and the spaces in front of a part. -/
def lineBlanks (depth : Nat) : Blanks where
  characters := newline depth
  blank := by simp [newline]

variable {depth : Nat} {ws : List Text}

/-- Items on lines of their own. -/
theorem itemsDenote_join (depth : Nat) {vs : List Tree} (here : List.Forall₂ ValueDenotes ws vs)
    (some : ws ≠ []) :
    ItemsDenote (newline (depth + 1) ++ (Text.join (44 :: newline (depth + 1)) ws ++ newline depth))
      vs := by
  induction here with
  | nil => exact absurd rfl some
  | @cons w v ws vs denotes rest ih =>
    cases rest with
    | nil => exact .last (lineBlanks (depth + 1)) (lineBlanks depth) denotes
    | cons next rest =>
      have item := ItemsDenote.cons (lineBlanks (depth + 1)) ⟨[], rfl⟩ denotes (ih (List.cons_ne_nil _ _))
      simpa [around, lineBlanks, Text.join] using item

/-- The text is that of a name, a colon and a value. -/
def MemberDenotes (w : Text) (e : Tree × Tree) : Prop :=
  ∃ pieces x, w = quoted pieces ++ text ": " ++ x ∧ e.1 = textTree (meaning pieces) ∧
    ValueDenotes x e.2

/-- Members on lines of their own. -/
theorem membersDenote_join (depth : Nat) {entries : List (Tree × Tree)}
    (here : List.Forall₂ MemberDenotes ws entries) (some : ws ≠ []) :
    MembersDenote
      (newline (depth + 1) ++ (Text.join (44 :: newline (depth + 1)) ws ++ newline depth)) entries := by
  induction here with
  | nil => exact absurd rfl some
  | @cons w e ws entries denotes rest ih =>
    obtain ⟨pieces, x, rfl, named, denotes⟩ := denotes
    obtain ⟨k, v⟩ := e
    obtain rfl : k = textTree (meaning pieces) := named
    cases rest with
    | nil =>
      have member := MembersDenote.last ⟨lineBlanks (depth + 1), pieces, ⟨[], rfl⟩⟩ ⟨[32], rfl⟩
        (lineBlanks depth) denotes
      simpa [nameWith, around, lineBlanks, Text.join, text] using member
    | cons next rest =>
      have member := MembersDenote.cons ⟨lineBlanks (depth + 1), pieces, ⟨[], rfl⟩⟩ ⟨[32], rfl⟩
        ⟨[], rfl⟩ denotes (ih (List.cons_ne_nil _ _))
      simpa [nameWith, around, lineBlanks, Text.join, text] using member

theorem valueDenotes_list {vs : List Tree} (here : List.Forall₂ ValueDenotes ws vs) :
    ValueDenotes (bracketed 91 93 depth ws) (.list vs) := by
  cases ws with
  | nil =>
    obtain rfl := List.forall₂_nil_left_iff.mp here
    exact .emptyArray ⟨[], rfl⟩
  | cons w ws =>
    have items := ValueDenotes.array (itemsDenote_join depth here (List.cons_ne_nil w ws))
    simpa [bracketed] using items

theorem valueDenotes_map {entries : List (Tree × Tree)}
    (here : List.Forall₂ MemberDenotes ws entries) :
    ValueDenotes (bracketed 123 125 depth ws) (.map entries) := by
  cases ws with
  | nil =>
    obtain rfl := List.forall₂_nil_left_iff.mp here
    exact .emptyObject ⟨[], rfl⟩
  | cons w ws =>
    have members := ValueDenotes.object (membersDenote_join depth here (List.cons_ne_nil w ws))
    simpa [bracketed] using members

/-! ## Values -/

theorem isCharacter_of_isBasic {u : Text} (basic : u.IsBasic) : ∀ x ∈ u, Octets.IsCharacter x :=
  fun x member => Octets.isCharacter_of_lt (Nat.lt_trans (basic x member).2 (by decide))

theorem valueDenotes_string {u : Text} (characters : ∀ x ∈ u, Octets.IsCharacter x) :
    ValueDenotes (string u) (textTree u) := by
  obtain ⟨pieces, written, denotes⟩ := exists_pieces fun x member => (characters x member).2
  rw [← written, ← denotes]
  exact .string pieces

theorem valueDenotes_int (i : Int) : ValueDenotes (Text.ofInt i) (.scalar (.int i)) := by
  have whole : (if i < 0 then -(i.natAbs : Int) else i.natAbs) = i := by split <;> omega
  have number := ValueDenotes.number
    ⟨decide (i < 0), Text.ofNat i.natAbs, Yaml.numeral_ofNat i.natAbs, none, none⟩
  simp only [Number.written, Number.scalar, numberOf, Option.map_none, Text.toNat_ofNat,
    decide_eq_true_eq, whole] at number
  rw [Yaml.ofInt_eq]
  split <;> simpa [*] using number

/-- A scalar with digits is written as a value, and one that is exact as itself. -/
theorem exists_denotes_of_scalar {y : Scalar} {w : Text} (done : scalar y = .ok w)
    (characters : (Tree.scalar y).HasCharacters) (digits : ¬ (Tree.scalar y).HasDigitless) :
    ∃ v, ValueDenotes w v ∧ ((Tree.scalar y).IsExactHere → v = .scalar y) := by
  cases y with
  | null =>
    obtain rfl := Except.ok.inj done
    exact ⟨_, .null, fun _ => rfl⟩
  | bool b =>
    obtain rfl := Except.ok.inj done
    exact ⟨_, .bool b, fun _ => rfl⟩
  | int i =>
    simp only [scalar, integerText?] at done
    split at done
    · obtain rfl := Except.ok.inj done
      exact ⟨_, valueDenotes_int i, fun _ => rfl⟩
    · cases done
  | float f =>
    obtain rfl := Except.ok.inj done
    cases f with
    | nan label => exact absurd .nan digits
    | infinite negative => exact absurd .infinite digits
    | finite negative significand exponent =>
      obtain ⟨n, written⟩ := exists_number_of_finite negative significand exponent
      rw [← written]
      exact ⟨_, ValueDenotes.number n, False.elim⟩
  | string u =>
    obtain rfl := Except.ok.inj done
    exact ⟨_, valueDenotes_string (characters u rfl), fun _ => rfl⟩
  | octets o => cases done
  | fieldType t =>
    obtain rfl := Except.ok.inj done
    have basic : Text.IsBasic t.name := by cases t <;> decide
    exact ⟨_, valueDenotes_string (isCharacter_of_isBasic basic), False.elim⟩
  | method m =>
    obtain rfl := Except.ok.inj done
    have basic : Text.IsBasic m.name := by cases m <;> decide
    exact ⟨_, valueDenotes_string (isCharacter_of_isBasic basic), False.elim⟩

/-- What is written of a scalar other than a text has characters only. -/
theorem isCharacter_of_scalar {y : Scalar} {w : Text} (done : scalar y = .ok w)
    (noText : y.asText? = none) : ∀ x ∈ w, Octets.IsCharacter x := by
  intro x member
  by_contra other
  have lacks : Lacks x (.scalar y) := lacks_of_ne fun u same => by
    obtain rfl := Tree.scalar.inj same
    cases noText
  exact ((isSpecial_of_not_isCharacter other).not_mem_scalar_iff done).mpr lacks member

/-- A key is written as a string, and a text as one that denotes it. -/
theorem exists_pieces_of_key {k : Tree} {w : Text} (done : key k = .ok w)
    (characters : k.HasCharacters) :
    ∃ pieces, quoted pieces = w ∧ ∀ u, k = textTree u → k = textTree (meaning pieces) := by
  have spelt {u : Text} (all : ∀ x ∈ u, Octets.IsCharacter x) :
      ∃ pieces, quoted pieces = string u ∧ meaning pieces = u :=
    exists_pieces fun x member => (all x member).2
  cases k with
  | scalar y =>
    cases named : y.asText? with
    | none =>
      obtain ⟨v, shown, rfl⟩ := exists_of_key named done
      obtain ⟨pieces, written, -⟩ := spelt (isCharacter_of_scalar shown named)
      refine ⟨pieces, written, fun u same => ?_⟩
      obtain rfl := Tree.scalar.inj same
      cases named
    | some t =>
      simp only [key, named] at done
      obtain rfl := Except.ok.inj done
      cases y with
      | string u =>
        obtain rfl := Option.some.inj named
        obtain ⟨pieces, written, denotes⟩ := spelt (characters u rfl)
        exact ⟨pieces, written, fun _ _ => by rw [denotes]⟩
      | fieldType type =>
        obtain rfl := Option.some.inj named
        have basic : Text.IsBasic type.name := by cases type <;> decide
        obtain ⟨pieces, written, -⟩ := spelt (isCharacter_of_isBasic basic)
        exact ⟨pieces, written, fun _ same => by cases same⟩
      | method m =>
        obtain rfl := Option.some.inj named
        have basic : Text.IsBasic m.name := by cases m <;> decide
        obtain ⟨pieces, written, -⟩ := spelt (isCharacter_of_isBasic basic)
        exact ⟨pieces, written, fun _ same => by cases same⟩
      | _ => cases named
  | _ => cases done

mutual

/-- A tree with digits in all its numbers is written as a value, and an exact one as itself. -/
theorem exists_denotes : (t : Tree) → {depth : Nat} → {w : Text} → value depth t = .ok w →
    t.Everywhere Tree.HasCharacters → ¬ t.HasDigitless →
      ∃ v, ValueDenotes w v ∧ (t.IsExact → v = t)
  | .scalar y, _, w, done, characters, digits => by
    rw [Tree.everywhere_scalar] at characters
    obtain ⟨v, denotes, same⟩ := exists_denotes_of_scalar done characters digits
    exact ⟨v, denotes, fun exact => same (Tree.everywhere_scalar.mp exact)⟩
  | .list items, depth, w, done, characters, digits => by
    obtain ⟨ws, parts, done⟩ := Except.exists_ok_of_bind done
    obtain rfl := Except.ok.inj done
    obtain ⟨vs, denote, same⟩ := exists_denotes_all items parts (Tree.everywhere_list.mp characters).2
      fun t member digitless => digits (.item member digitless)
    refine ⟨.list vs, valueDenotes_list denote, fun exact => ?_⟩
    rw [same (Tree.everywhere_list.mp exact).2]
  | .tuple items, depth, w, done, characters, digits => by
    obtain ⟨ws, parts, done⟩ := Except.exists_ok_of_bind done
    obtain rfl := Except.ok.inj done
    obtain ⟨vs, denote, -⟩ := exists_denotes_all items parts (Tree.everywhere_tuple.mp characters).2
      fun t member digitless => digits (.part member digitless)
    exact ⟨.list vs, valueDenotes_list denote, fun exact => (Tree.everywhere_tuple.mp exact).1.elim⟩
  | .map entries, depth, w, done, characters, digits => by
    obtain ⟨ws, parts, done⟩ := Except.exists_ok_of_bind done
    obtain rfl := Except.ok.inj done
    obtain ⟨es, denote, same⟩ := exists_denotes_entries entries parts
      (Tree.everywhere_map.mp characters).2 fun e member digitless => digits (.value member digitless)
    refine ⟨.map es, valueDenotes_map denote, fun exact => ?_⟩
    obtain ⟨named, inner⟩ := Tree.everywhere_map.mp exact
    rw [same fun e member => ⟨named e member, (inner e member).2⟩]
  | .set _, _, _, done, _, _ | .date _, _, _, done, _, _ | .time _, _, _, done, _, _
  | .field _, _, _, done, _, _ | .schema _, _, _, done, _, _ | .resource _, _, _, done, _, _
  | .object, _, _, done, _, _ | .back _, _, _, done, _, _ => by cases done

theorem exists_denotes_all : (items : List Tree) → {depth : Nat} → {ws : List Text} →
    values depth items = .ok ws → (∀ t ∈ items, t.Everywhere Tree.HasCharacters) →
      (∀ t ∈ items, ¬ t.HasDigitless) →
        ∃ vs, List.Forall₂ ValueDenotes ws vs ∧ ((∀ t ∈ items, t.IsExact) → vs = items)
  | [], _, ws, done, _, _ => by
    obtain rfl := Except.ok.inj done
    exact ⟨[], .nil, fun _ => rfl⟩
  | t :: rest, _, ws, done, characters, digits => by
    obtain ⟨w, first, done⟩ := Except.exists_ok_of_bind done
    obtain ⟨more, later, done⟩ := Except.exists_ok_of_bind done
    obtain rfl := Except.ok.inj done
    rw [List.forall_mem_cons] at characters digits
    obtain ⟨v, denotes, same⟩ := exists_denotes t first characters.1 digits.1
    obtain ⟨vs, denote, sames⟩ := exists_denotes_all rest later characters.2 digits.2
    refine ⟨v :: vs, .cons denotes denote, fun exact => ?_⟩
    rw [List.forall_mem_cons] at exact
    rw [same exact.1, sames exact.2]

theorem exists_denotes_entries : (entries : List (Tree × Tree)) → {depth : Nat} →
    {ws : List Text} → members depth entries = .ok ws →
      (∀ e ∈ entries, e.1.Everywhere Tree.HasCharacters ∧ e.2.Everywhere Tree.HasCharacters) →
        (∀ e ∈ entries, ¬ e.2.HasDigitless) →
          ∃ es, List.Forall₂ MemberDenotes ws es ∧
            ((∀ e ∈ entries, (∃ u, e.1 = textTree u) ∧ e.2.IsExact) → es = entries)
  | [], _, ws, done, _, _ => by
    obtain rfl := Except.ok.inj done
    exact ⟨[], .nil, fun _ => rfl⟩
  | (k, v) :: rest, _, ws, done, characters, digits => by
    obtain ⟨name, named, done⟩ := Except.exists_ok_of_bind done
    obtain ⟨w, valued, done⟩ := Except.exists_ok_of_bind done
    obtain ⟨more, later, done⟩ := Except.exists_ok_of_bind done
    obtain rfl := Except.ok.inj done
    rw [List.forall_mem_cons] at characters digits
    obtain ⟨pieces, rfl, text⟩ := exists_pieces_of_key named (characters.1.1 k k.mem_parts_self)
    obtain ⟨u, denotes, same⟩ := exists_denotes v valued characters.1.2 digits.1
    obtain ⟨es, denote, sames⟩ := exists_denotes_entries rest later characters.2 digits.2
    refine ⟨(textTree (meaning pieces), u) :: es, .cons ⟨pieces, w, rfl, rfl, denotes⟩ denote,
      fun exact => ?_⟩
    rw [List.forall_mem_cons] at exact
    obtain ⟨⟨⟨t, isText⟩, inner⟩, others⟩ := exact
    rw [← text t isText, same inner, sames others]

end

end Render.Json

namespace Store

variable {s : Store} {v : Value} {t : Text}

/-- An exact document is what its JSON denotes, and nothing else is. -/
theorem denotes_iff_of_isExact (exact : (s.unfold v).IsExact)
    (done : s.render v .json = .ok t) (u : Tree) :
    Json.Denotes t u ↔ u = s.unfold v := by
  have characters : (s.unfold v).Everywhere Tree.HasCharacters :=
    exact.imp fun _ here => here.hasCharacters
  obtain ⟨w, here, done⟩ := Except.exists_ok_of_bind done
  obtain rfl := Except.ok.inj done
  obtain ⟨_, denotes, same⟩ := Render.Json.exists_denotes _ here characters exact.not_hasDigitless
  obtain rfl := same exact
  have shown : Json.Denotes (w ++ [10]) (s.unfold v) :=
    ⟨⟨[], rfl⟩, ⟨[10], rfl⟩, w, rfl, denotes⟩
  constructor
  · exact fun other => other.unique shown
  · rintro rfl
    exact shown

/-- The JSON of an exact document denotes the document and nothing else, so different exact
documents never have the same JSON. -/
theorem exact_document_is_denoted (exact : (s.unfold v).IsExact)
    (done : s.renderNamed v (text "json") = .ok t) :
    (∀ u, Json.Denotes t u ↔ u = s.unfold v) ∧
      ∀ (s' : Store) (v' : Value), (s'.unfold v').IsExact →
        s'.renderNamed v' (text "json") = .ok t → s'.unfold v' = s.unfold v := by
  have denotes := denotes_iff_of_isExact exact done
  refine ⟨denotes, fun s' v' exact' done' => ?_⟩
  exact (denotes (s'.unfold v')).mp ((denotes_iff_of_isExact exact' done' (s'.unfold v')).mpr rfl)

end Store

namespace ExactSample

/-- Texts with a quote, a line break, a control character and a character beyond the basic plane,
empty containers, and one list at two places. -/
def store : Store where
  cells := #[
    .map [(.ofText (text "say \"b\""), .ref 1), (.ofText (text "a"), .ref 2), (.ofText [], .ref 1)],
    .list [.null, .scalar (.int (-12)), .scalar (.bool true), .ofText [10, 1, 0x1F600]],
    .map [(.ofText (text "empty"), .ref 3), (.ofText (text "none"), .ref 4)],
    .list [],
    .map []]
  labels := 0
  given := []

/-- The list in the sample. -/
def items : Tree :=
  .list [.scalar .null, .scalar (.int (-12)), .scalar (.bool true), Json.textTree [10, 1, 0x1F600]]

/-- What the sample shows. -/
def tree : Tree :=
  .map [(Json.textTree (text "say \"b\""), items),
    (Json.textTree (text "a"), .map [(Json.textTree (text "empty"), .list []),
      (Json.textTree (text "none"), .map [])]),
    (Json.textTree [], items)]

theorem unfold_eq : store.unfold (.ref 0) = tree := rfl

theorem isExact : (store.unfold (.ref 0)).IsExact := by
  have items : items.IsExact := by
    simp [items, Tree.IsExact, Tree.everywhere_list, Tree.everywhere_scalar, Tree.IsExactHere,
      Octets.IsCharacter, Text.isSurrogate]
  rw [Tree.IsExact] at items
  rw [unfold_eq]
  simp [tree, Tree.IsExact, Tree.everywhere_map, Tree.everywhere_list, Tree.everywhere_scalar,
    Tree.IsExactHere, Octets.IsCharacter, Text.isSurrogate, text, items]

/-- The sample in JSON. -/
def written : Text :=
  text "\x7b\n  \"say \\\"b\\\"\": [\n    null,\n    -12,\n    true,\n    \"\\n\\u0001" ++ [0x1F600]
    ++ text "\"\n  ],\n  \"a\": \x7b\n    \"empty\": [],\n    \"none\": \x7b\x7d\n  \x7d,\n"
    ++ text "  \"\": [\n    null,\n    -12,\n    true,\n    \"\\n\\u0001" ++ [0x1F600]
    ++ text "\"\n  ]\n\x7d\n"

theorem renderNamed_eq : store.renderNamed (.ref 0) (text "json") = .ok written := by
  decide +kernel

end ExactSample

open ExactSample in
/-- The sample is what its JSON denotes. -/
theorem exact_sample_is_denoted :
    (store.unfold (.ref 0)).IsExact ∧ store.renderNamed (.ref 0) (text "json") = .ok written ∧
      Json.Denotes written tree :=
  ⟨isExact, renderNamed_eq,
    ((Store.exact_document_is_denoted isExact renderNamed_eq).1 tree).mpr unfold_eq.symm⟩

end SwaggerDoc
