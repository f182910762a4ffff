import SwaggerDoc.Proofs.Yaml.Quoted
import SwaggerDoc.Yaml.Lexeme.Plain

/-!
What stands without quotes, and what it is read as.

`Unquoted` says which characters without quotes stand for which text: words with spaces between, of
which a single one can be a line break instead. Reading gives back the text in front of a colon
(`Unquoted.plain_of_colon`) and at the end of a line, where it goes on to the next line
(`Unquoted.plain_of_newLine`).
-/

namespace SwaggerDoc.Yaml

/-- A word that can stand without quotes between blanks. -/
structure PlainWord (u : Text) : Prop where
  nonempty : u ≠ []
  solid : ∀ x ∈ u, isSeparator x = false
  plain : ∀ x ∈ u, isPlainCharacter x = true
  noComment : u.head? ≠ some 35
  noColon : u.getLast? ≠ some 58

/-- The characters without quotes stand for a text. A single space can be a line break instead. -/
inductive Unquoted (column : Nat) : (written meaning : Text) → Prop
  | word {u : Text} : PlainWord u → Unquoted column u u
  | spaces {u w t : Text} (n : Nat) : PlainWord u → Unquoted column w t →
    Unquoted column (u ++ (List.replicate (n + 1) 32 ++ w)) (u ++ (List.replicate (n + 1) 32 ++ t))
  | fold {u w t : Text} : PlainWord u → Unquoted column w t →
    Unquoted column (u ++ (newLine column ++ w)) (u ++ 32 :: t)

/-- What follows ends a word: a blank or a line break, or a colon in front of one. -/
def EndsWord (rest : Text) : Prop :=
  isSeparator (rest.headD 0) = true ∨ rest.head? = some 58 ∧ isSeparator (rest.tail.headD 0) = true

theorem PlainWord.exists_cons {u : Text} (word : PlainWord u) :
    ∃ x v, u = x :: v ∧ isSeparator x = false ∧ x ≠ 35 := by
  obtain ⟨x, v, rfl⟩ := List.exists_cons_of_ne_nil word.nonempty
  exact ⟨x, v, rfl, word.solid x List.mem_cons_self,
    fun same => word.noComment (congrArg some same)⟩

theorem PlainWord.head_append {u : Text} (word : PlainWord u) (rest : Text) :
    BeginsSolid (u ++ rest) ∧ (u ++ rest).head? ≠ some 35 := by
  obtain ⟨x, v, rfl, ink, noComment⟩ := word.exists_cons
  constructor
  · intro y head
    obtain rfl := Option.some.inj head
    exact ink
  · exact fun same => noComment (Option.some.inj same)

theorem Unquoted.head_append {column : Nat} {w t : Text} (shows : Unquoted column w t)
    (rest : Text) : BeginsSolid (w ++ rest) ∧ (w ++ rest).head? ≠ some 35 := by
  cases shows with
  | word first => exact first.head_append rest
  | spaces n first | fold first =>
    rw [List.append_assoc]
    exact first.head_append _

theorem PlainWord.columnAfter_eq {u : Text} (word : PlainWord u) (column : Nat) :
    columnAfter column u = column + u.length := by
  refine columnAfter_oneLine column fun x member => ⟨?_, ?_⟩
  · have ink := word.solid x member
    simp only [isSeparator, Bool.or_eq_false_iff] at ink
    exact ink.2
  · rintro rfl
    cases word.plain _ member

namespace Lexeme

theorem plainWord_append {u rest : Text} (solid : ∀ x ∈ u, isSeparator x = false)
    (noColon : u.getLast? ≠ some 58) (ends : EndsWord rest) :
    plainWord false (u ++ rest) = u := by
  induction u with
  | nil =>
    cases rest with
    | nil => rfl
    | cons x rest =>
      rcases ends with blank | ⟨colon, blank⟩
      · have separates : isSeparator x = true := blank
        simp [plainWord, separates]
      · obtain rfl := Option.some.inj colon
        have separates : isSeparator (rest.headD 0) = true := blank
        simp only [List.nil_append, plainWord, endsAtColon, separates, beq_self_eq_true,
          Bool.true_or, Bool.and_true, Bool.or_true, if_true]
  | cons x u ih =>
    have ink := solid x List.mem_cons_self
    have later : plainWord false (u ++ rest) = u := by
      cases u with
      | nil => exact ih (List.forall_mem_nil _) nofun
      | cons y u => exact ih (fun z member => solid z (List.mem_cons_of_mem x member)) noColon
    have inside : (x == 58 && endsAtColon false ((u ++ rest).headD 0)) = false := by
      cases u with
      | nil =>
        have other : x ≠ 58 := fun same => noColon (congrArg some same)
        simp [other]
      | cons y u =>
        have ink' : isSeparator y = false := solid y (by simp)
        simp [endsAtColon, ink']
    rw [List.cons_append, plainWord, ink, inside, later]
    rfl

variable {read rest : Text} {column : Nat}

theorem isSpace_of_isBreak (x : CodePoint) (ends : isBreak x = true) : (x == 32) = false := by
  simp only [isBreak, Bool.or_eq_true, beq_iff_eq] at ends
  rcases ends with ((rfl | rfl) | rfl) | rfl <;> rfl

theorem isSpace_of_solid {x : CodePoint} (ink : isSeparator x = false) :
    (x == 32) = false ∧ isBreak x = false := by
  simp only [isSeparator, Bool.or_eq_false_iff] at ink
  exact ⟨ink.1.1.1.2, ink.2⟩

theorem plainGap_spaces (read : Text) (n : Nat) (solid : BeginsSolid rest) :
    plainGap (.behind read (List.replicate n 32 ++ rest)) =
      ⟨List.replicate n 32, .behind (read ++ List.replicate n 32) rest, false⟩ := by
  have blank : ∀ x ∈ List.replicate n 32, (x == 32) = true := by
    intro x member
    rw [List.eq_of_mem_replicate member]
    rfl
  have spans := Cursor.span_behind read blank fun x head =>
    (isSpace_of_solid (solid x head)).1
  have ends := Cursor.lineBreak?_eq_none (read ++ List.replicate n 32) fun x head =>
    (isSpace_of_solid (solid x head)).2
  rw [plainGap, spans]
  simp only [ends]

/-- What line breaks come to between words. -/
def gapOf (first : CodePoint) (breaks : Breaks) : Plain :=
  ⟨if breaks.marked then [] else folded first breaks.passed, breaks.cursor, true⟩

/-- Behind a line break nothing but the indentation of the next line is passed. -/
theorem plainGap_newLine (read : Text) (column : Nat) (solid : BeginsSolid rest) :
    ∃ found, plainGap (.behind read (newLine column ++ rest)) =
      ⟨found, .behind (read ++ newLine column) rest, true⟩ ∧ (0 < column → found = [32]) := by
  have passes : plainGap (.behind read (newLine column ++ rest)) =
      gapOf 10 (Breaks.from (· == 32) ((List.replicate column 32 ++ rest).length + 1)
        (.behind (read ++ [10]) (List.replicate column 32 ++ rest))) := by
    have next : (Cursor.behind read (newLine column ++ rest)).next =
        .behind (read ++ [10]) (List.replicate column 32 ++ rest) := Cursor.next_behind_cons
    rw [← next]
    rfl
  have read_eq : read ++ newLine column = read ++ [10] ++ List.replicate column 32 := by
    simp [newLine]
  rw [passes, read_eq]
  cases marked : (Cursor.behind (read ++ [10]) (List.replicate column 32 ++ rest)).atDocument with
  | true =>
    cases column with
    | zero =>
      have stops : Breaks.from (· == 32) (rest.length + 1) (.behind (read ++ [10]) rest) =
          ⟨[], .behind (read ++ [10]) rest, true⟩ := by
        rw [Breaks.from]
        exact if_pos marked
      refine ⟨[], ?_, fun positive => absurd positive (Nat.lt_irrefl 0)⟩
      simp [stops, gapOf]
    | succ column =>
      rw [Cursor.atDocument_spaces (Nat.succ_pos column)] at marked
      cases marked
  | false =>
    have passed : Breaks.from (· == 32) ((List.replicate column 32 ++ rest).length + 1)
        (.behind (read ++ [10]) (List.replicate column 32 ++ rest)) = _ :=
      Breaks.from_behind [] rfl isSpace_of_isBreak (fun x head => isSpace_of_solid (solid x head))
        (List.forall_mem_nil _) (Nat.succ_pos _) (by simpa using marked)
    rw [passed]
    exact ⟨[32], by simp [gapOf, folded], fun _ => rfl⟩

end Lexeme

open Lexeme

theorem endsWord_spaces (n : Nat) (rest : Text) : EndsWord (List.replicate (n + 1) 32 ++ rest) :=
  .inl rfl

theorem endsWord_newLine (column : Nat) (rest : Text) : EndsWord (newLine column ++ rest) :=
  .inl rfl

/-- A word is read, and the gap behind it decides whether reading goes on. -/
theorem plainFrom_word {u rest g : Text} {margin n : Nat} {b : Bool} (word : PlainWord u)
    (ends : EndsWord rest) (read : Text) :
    plainFrom false margin (n + 1) ⟨g, .behind read (u ++ rest), b⟩ =
      let next := plainGap (.behind (read ++ u) rest)
      let more :=
        if next.found.isEmpty || next.cursor.column < margin then { next with found := [] }
        else plainFrom false margin n next
      { more with found := g ++ u ++ more.found } := by
  have peek : (Cursor.behind read (u ++ rest)).peek ≠ 35 := by
    obtain ⟨x, v, rfl, -, other⟩ := word.exists_cons
    exact other
  have found := plainWord_append word.solid word.noColon ends
  have some : u.isEmpty = false := by simpa using word.nonempty
  rw [plainFrom]
  simp only [if_neg peek, Cursor.rest_behind, found, some, Bool.false_eq_true, if_false,
    Cursor.advance_behind, Bool.not_false, Bool.true_and]

/-- Behind a gap that is inside the block around it reading goes on. -/
theorem plainFrom_gap {u rest g f t : Text} {margin n : Nat} {b : Bool} {c d : Cursor}
    (word : PlainWord u) (ends : EndsWord rest) (read : Text)
    (gap : plainGap (.behind (read ++ u) rest) = ⟨f, c, b⟩) (some : f ≠ [])
    (inside : margin ≤ c.column)
    {e b' : Bool} (later : plainFrom false margin n ⟨f, c, b⟩ = ⟨f ++ t, d, e⟩) :
    plainFrom false margin (n + 1) ⟨g, .behind read (u ++ rest), b'⟩ =
      ⟨g ++ (u ++ (f ++ t)), d, e⟩ := by
  have goesOn : (f.isEmpty || decide (c.column < margin)) = false := by
    simpa [some] using inside
  rw [plainFrom_word word ends, gap]
  simp only [goesOn, later, Bool.false_eq_true, if_false, List.append_assoc]

/-- Reading stops behind the text if the gap there says so. -/
theorem Unquoted.plainFrom_eq {column margin : Nat} {w t : Text} (shows : Unquoted column w t)
    (indented : 0 < column) (inside : margin ≤ column) {rest : Text} (ends : EndsWord rest)
    (read g : Text) (started : margin ≤ columnAfter 0 read + 1) {n : Nat} (fuel : w.length < n)
    (b : Bool)
    (last : (plainGap (.behind (read ++ w) rest)).found = [] ∨
      (plainGap (.behind (read ++ w) rest)).cursor.column < margin) :
    plainFrom false margin n ⟨g, .behind read (w ++ rest), b⟩ =
      { plainGap (.behind (read ++ w) rest) with found := g ++ t } := by
  induction shows generalizing read g n b with
  | @word u first =>
    obtain ⟨n, rfl⟩ := Nat.exists_eq_add_of_lt fuel
    rw [plainFrom_word first ends]
    have stops : ((plainGap (.behind (read ++ u) rest)).found.isEmpty ||
        decide ((plainGap (.behind (read ++ u) rest)).cursor.column < margin)) = true := by
      simpa using last
    simp only [stops, if_true, List.append_nil]
  | @spaces u w t m first shows ih =>
    obtain ⟨n, rfl⟩ := Nat.exists_eq_add_of_lt fuel
    have reached : margin ≤ columnAfter 0 (read ++ u ++ List.replicate (m + 1) 32) := by
      rw [columnAfter_append, columnAfter_append, first.columnAfter_eq, columnAfter_spaces]
      omega
    have gap := plainGap_spaces (read ++ u) (m + 1) (shows.head_append rest).1
    have later := ih (read ++ u ++ List.replicate (m + 1) 32) (List.replicate (m + 1) 32)
      (Nat.le_succ_of_le reached)
      (n := (u ++ (List.replicate (m + 1) 32 ++ w)).length + n)
      (by simp only [List.length_append, List.length_replicate]; omega) false
      (by simpa only [List.append_assoc] using last)
    rw [List.append_assoc, List.append_assoc,
      plainFrom_gap first (endsWord_spaces m _) read gap (by simp) reached later]
    simp only [List.append_assoc]
  | @fold u w t first shows ih =>
    obtain ⟨n, rfl⟩ := Nat.exists_eq_add_of_lt fuel
    obtain ⟨found, gap, single⟩ :=
      plainGap_newLine (read ++ u) column (shows.head_append rest).1
    obtain rfl := single indented
    have reached : margin ≤ columnAfter 0 (read ++ u ++ newLine column) := by
      rwa [columnAfter_append, columnAfter_newLine]
    have later := ih (read ++ u ++ newLine column) [32] (Nat.le_succ_of_le reached)
      (n := (u ++ (newLine column ++ w)).length + n)
      (by simp only [List.length_append, newLine, List.length_cons]; omega) true
      (by simpa only [List.append_assoc] using last)
    rw [List.append_assoc, List.append_assoc,
      plainFrom_gap first (endsWord_newLine column _) read gap (by simp) reached later]
    simp only [List.append_assoc, List.singleton_append]

section Ends

variable {column margin : Nat} {w t read rest : Text}

/-- In front of a colon the text ends. -/
theorem Unquoted.plain_of_colon (shows : Unquoted column w t) (margin : Nat) (read : Text)
    (indented : 0 < column) (inside : margin ≤ column) (started : margin ≤ columnAfter 0 read + 1)
    (separated : isSeparator (rest.headD 0) = true) :
    plain false margin (.behind read (w ++ 58 :: rest)) =
      ⟨t, .behind (read ++ w) (58 :: rest), false⟩ := by
  have fuel : w.length < (w ++ 58 :: rest).length + 1 := by
    simp only [List.length_append, List.length_cons]
    omega
  have ends : EndsWord (58 :: rest) := .inr ⟨rfl, separated⟩
  exact shows.plainFrom_eq indented inside ends read [] started fuel false (.inl rfl)

/-- A line on which the block around is left ends the text in front of it. -/
theorem Unquoted.plain_of_newLine (shows : Unquoted column w t) (margin : Nat) (read : Text)
    (next : Nat) (indented : 0 < column) (inside : margin ≤ column)
    (started : margin ≤ columnAfter 0 read + 1) (outside : next < margin)
    (solid : BeginsSolid rest) :
    plain false margin (.behind read (w ++ (newLine next ++ rest))) =
      ⟨t, .behind (read ++ w ++ newLine next) rest, true⟩ := by
  have fuel : w.length < (w ++ (newLine next ++ rest)).length + 1 := by
    simp only [List.length_append]
    omega
  obtain ⟨f, gap, -⟩ := plainGap_newLine (read ++ w) next solid
  have found := shows.plainFrom_eq indented inside (endsWord_newLine next rest) read [] started fuel
    false (.inr (by rw [gap]; simpa using outside))
  rw [gap] at found
  exact found

end Ends

end SwaggerDoc.Yaml
