import SwaggerDoc.Proofs.Text.Octets
import SwaggerDoc.Proofs.Yaml.Layout
import SwaggerDoc.Yaml.Graph

/-!
The characters of written data.

Every character that data are written with may stand in a text that is read, and none is a carriage
return, so that reading finds the lines as they were written.
-/

namespace SwaggerDoc.Yaml

open Page

/-- A character may stand in a text that is read, where it stays as it is. -/
def IsWritten (x : CodePoint) : Prop := isReadable x = true ∧ x ≠ 13

theorem isWritten_of_plain {x : CodePoint} (plain : isPlainCharacter x = true) : IsWritten x := by
  simp only [isPlainCharacter, IsWritten, isReadable, Bool.or_eq_true, Bool.and_eq_true, beq_iff_eq,
    decide_eq_true_eq] at *
  dsimp only [CodePoint] at *
  omega

theorem isWritten_of_needless {x : CodePoint} (needless : needsEscape x = false) : IsWritten x := by
  simp only [needsEscape, IsWritten, isReadable, Bool.or_eq_false_iff, Bool.or_eq_true,
    Bool.and_eq_true, Bool.not_eq_false', beq_iff_eq, decide_eq_true_eq] at *
  dsimp only [CodePoint] at *
  omega

theorem isWritten_of_basic {x : CodePoint} (least : 32 ≤ x) (greatest : x < 127) : IsWritten x := by
  simp only [IsWritten, isReadable, Bool.or_eq_true, Bool.and_eq_true, beq_iff_eq,
    decide_eq_true_eq]
  dsimp only [CodePoint] at *
  omega

/-- All characters may stand in a text that is read. -/
def AllWritten (w : Text) : Prop := ∀ x ∈ w, IsWritten x

section AllWritten

variable {v w : Text} {x : CodePoint} {column : Nat}

theorem allWritten_nil : AllWritten [] := List.forall_mem_nil _

theorem AllWritten.cons (first : IsWritten x) (rest : AllWritten w) : AllWritten (x :: w) :=
  List.forall_mem_cons.mpr ⟨first, rest⟩

theorem AllWritten.append (front : AllWritten v) (rest : AllWritten w) : AllWritten (v ++ w) :=
  List.forall_mem_append.mpr ⟨front, rest⟩

theorem allWritten_basic (range : ∀ x ∈ w, 32 ≤ x ∧ x < 127) : AllWritten w := fun x member =>
  isWritten_of_basic (range x member).1 (range x member).2

theorem allWritten_spaces (n : Nat) : AllWritten (List.replicate n 32) := by
  intro x member
  rw [List.eq_of_mem_replicate member]
  exact isWritten_of_basic (by decide) (by decide)

theorem isWritten_feed : IsWritten 10 := ⟨rfl, by decide⟩

theorem allWritten_newLine (column : Nat) : AllWritten (newLine column) :=
  .cons isWritten_feed (allWritten_spaces column)

theorem exists_hexDigit {count n : Nat} {d : CodePoint} (member : d ∈ Text.hex count n) :
    ∃ k < 16, d = Text.hexDigit k := by
  induction count generalizing n with
  | zero => cases member
  | succ count ih =>
    rcases List.mem_append.mp member with front | last
    · exact ih front
    · exact ⟨n % 16, Nat.mod_lt n (by decide), List.mem_singleton.mp last⟩

/-- The digits of an escape are among the basic characters. -/
theorem basic_capitalHex (count n : Nat) : ∀ y ∈ capitalHex count n, 32 ≤ y ∧ y < 127 := by
  intro y member
  obtain ⟨d, digit, rfl⟩ := List.mem_map.mp member
  obtain ⟨k, small, rfl⟩ := exists_hexDigit digit
  have table : ∀ k < 16, 32 ≤ (fun c => if 97 ≤ c then c - 32 else c) (Text.hexDigit k) ∧
      (fun c => if 97 ≤ c then c - 32 else c) (Text.hexDigit k) < 127 := by decide
  exact table k small

theorem basic_escape (x : CodePoint) : ∀ y ∈ escape x, 32 ≤ y ∧ y < 127 := by
  have mark (letter count n : Nat) (range : 32 ≤ letter ∧ letter < 127) :
      ∀ y ∈ (92 :: letter :: capitalHex count n : Text), 32 ≤ y ∧ y < 127 :=
    List.forall_mem_cons.mpr ⟨by decide, List.forall_mem_cons.mpr ⟨range, basic_capitalHex count n⟩⟩
  unfold escape
  cases known : escapeLetters.lookup x with
  | some letter =>
    have table : ∀ e ∈ escapeLetters, 32 ≤ e.2 ∧ e.2 < 127 := by decide
    have range := table _ (Lexeme.mem_of_lookup known)
    exact List.forall_mem_cons.mpr ⟨by decide, List.forall_mem_singleton.mpr range⟩
  | none =>
    dsimp only
    split
    · exact mark 120 2 x (by decide)
    · split
      · exact mark 117 4 x (by decide)
      · exact mark 85 8 x (by decide)

variable {t : Text}

theorem DoubleQuoted.allWritten (shows : DoubleQuoted column w t) : AllWritten w := by
  induction shows with
  | nil => exact allWritten_nil
  | raw needless ink shows ih => exact .cons (isWritten_of_needless needless) ih
  | spaces n last shows ih => exact (allWritten_spaces (n + 1)).append ih
  | escape character shows ih => exact (allWritten_basic (basic_escape _)).append ih
  | space shows ih =>
    exact .cons (isWritten_of_basic (by decide) (by decide))
      (.cons (isWritten_of_basic (by decide) (by decide)) ih)
  | fold ink shows ih =>
    exact .cons (isWritten_of_basic (by decide) (by decide)) ((allWritten_newLine column).append ih)

theorem isWritten_of_isBreak {x : CodePoint} (ends : isBreak x = true) : IsWritten x := by
  simp only [isBreak, Bool.or_eq_true, beq_iff_eq] at ends
  rcases ends with ((rfl | rfl) | rfl) | rfl <;> exact ⟨rfl, by decide⟩

theorem SingleQuoted.allWritten (shows : SingleQuoted column w t) : AllWritten w := by
  induction shows with
  | nil => exact allWritten_nil
  | raw plain ink other shows ih => exact .cons (isWritten_of_plain plain) ih
  | quote shows ih =>
    exact .cons (isWritten_of_basic (by decide) (by decide))
      (.cons (isWritten_of_basic (by decide) (by decide)) ih)
  | spaces n solid shows ih => exact (allWritten_spaces (n + 1)).append ih
  | fold solid shows ih => exact (allWritten_newLine column).append ih
  | @breaks b bs w t ends solid shows ih =>
    have feed : AllWritten (if b = 10 then [10] else []) := by
      split
      · exact .cons isWritten_feed allWritten_nil
      · exact allWritten_nil
    have lines : AllWritten (b :: bs) := fun x member => isWritten_of_isBreak (ends x member).1
    exact (feed.append lines).append ((allWritten_spaces column).append ih)

theorem Unquoted.allWritten (shows : Unquoted column w t) : AllWritten w := by
  have word {u : Text} (word : PlainWord u) : AllWritten u := fun x member =>
    isWritten_of_plain (word.plain x member)
  induction shows with
  | word first => exact word first
  | spaces n first shows ih => exact (word first).append ((allWritten_spaces (n + 1)).append ih)
  | fold first shows ih => exact (word first).append ((allWritten_newLine column).append ih)

theorem Spells.allWritten {plain : Bool} (shows : Spells column w plain t) : AllWritten w := by
  have quote (q : CodePoint) (least : 32 ≤ q) (greatest : q < 127) {v : Text}
      (inner : AllWritten v) : AllWritten (q :: v ++ [q]) :=
    (inner.cons (isWritten_of_basic least greatest)).append
      (.cons (isWritten_of_basic least greatest) allWritten_nil)
  cases shows with
  | unquoted first shows => exact shows.allWritten
  | singleQuoted shows => exact quote 39 (by decide) (by decide) shows.allWritten
  | doubleQuoted shows => exact quote 34 (by decide) (by decide) shows.allWritten

theorem LaidKey.allWritten {key : Text} (laid : LaidKey column key w) : AllWritten w := by
  obtain ⟨name, shows, ⟨-, -, rfl⟩ | ⟨-, rfl⟩⟩ := laid
  · exact shows.allWritten.append (allWritten_basic (by decide))
  · have question : AllWritten [63, 32] := allWritten_basic (by decide)
    exact question.append
      (shows.allWritten.append ((allWritten_newLine column).append (allWritten_basic (by decide))))

theorem allWritten_lead (column : Nat) (behindKey : Bool) (d : Data) :
    AllWritten (lead column behindKey d) := by
  have space := allWritten_spaces 1
  cases d with
  | atom a => exact space
  | list items =>
    rw [lead]
    split
    · exact allWritten_newLine column
    · exact space
  | map entries =>
    rw [lead]
    split
    · exact allWritten_newLine (column + 2)
    · exact space

end AllWritten

mutual

theorem Laid.allWritten {column : Nat} {behindKey : Bool} : (d : Data) → {w : Text} →
    Laid column behindKey d w → AllWritten w
  | .atom a, w, laid => Spells.allWritten laid
  | .list items, w, laid => by
    rcases laid with ⟨-, rfl⟩ | ⟨-, laid⟩
    · exact allWritten_basic (by decide)
    · exact fun x member => laid.allWritten items x (List.mem_append_right _ member)
  | .map entries, w, laid => by
    rcases laid with ⟨-, rfl⟩ | ⟨-, laid⟩
    · exact allWritten_basic (by decide)
    · exact fun x member => laid.allWritten entries x (List.mem_append_right _ member)

theorem LaidAll.allWritten {column : Nat} : (items : List Data) → {w : Text} →
    LaidAll column items w → AllWritten w
  | [], w, laid => by
    obtain rfl := laid
    exact allWritten_nil
  | d :: rest, w, laid => by
    obtain ⟨first, more, rfl, laid, laid'⟩ := laid
    have hyphen : AllWritten [45, 32] := allWritten_basic (by decide)
    exact (allWritten_newLine column).append
      (hyphen.append ((laid.allWritten d).append (laid'.allWritten rest)))

theorem LaidEntries.allWritten {column : Nat} : (entries : List (Text × Data)) → {w : Text} →
    LaidEntries column entries w → AllWritten w
  | [], w, laid => by
    obtain rfl := laid
    exact allWritten_nil
  | (key, d) :: rest, w, laid => by
    obtain ⟨name, first, more, rfl, laidKey, laid, laid'⟩ := laid
    exact (allWritten_newLine column).append (laidKey.allWritten.append
      ((allWritten_lead column _ d).append ((laid.allWritten d).append (laid'.allWritten rest))))

end

/-! ## Reading -/

theorem plainLines_eq_self {t : Text} (none : ∀ x ∈ t, x ≠ 13) : plainLines t = t := by
  induction t with
  | nil => rfl
  | cons x t ih =>
    have other := none x List.mem_cons_self
    have later := ih fun y member => none y (List.mem_cons_of_mem x member)
    rw [plainLines, later]
    · exact fun _ same => absurd same other
    · exact other

theorem AllWritten.ofText_eq {w : Text} (written : AllWritten w) :
    Graph.ofText w = Graph.ofTokens (Tokens.of w) := by
  have readable : w.all isReadable = true :=
    List.all_eq_true.mpr fun x member => (written x member).1
  rw [Graph.ofText, if_pos readable, plainLines_eq_self fun x member => (written x member).2]

/-- What may stand in a text that is read is a character. -/
theorem IsWritten.isCharacter {x : CodePoint} (written : IsWritten x) : Octets.IsCharacter x := by
  have readable := written.1
  simp only [isReadable, Octets.IsCharacter, Text.isSurrogate, Bool.or_eq_true, Bool.and_eq_true,
    beq_iff_eq, decide_eq_true_eq, Bool.and_eq_false_iff, decide_eq_false_iff_not] at *
  dsimp only [CodePoint] at *
  omega

end SwaggerDoc.Yaml
