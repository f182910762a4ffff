import SwaggerDoc.Yaml.Cursor

/-!
Cursors by what is in front of them.

A cursor that has come from the start of a text is determined by the text behind it and the text in
front of it: its line and its column are those of the text that has been read. Moving on means that
characters go from one side to the other, so that every fact about a cursor is one about texts.
-/

namespace SwaggerDoc.Yaml

/-- The column behind a text that begins in a column. -/
def columnAfter (column : Nat) (t : Text) : Nat :=
  t.foldl (fun n x => if isBreak x then 0 else if x = 0xFEFF then n else n + 1) column

/-- The number of lines that a text ends. -/
def linesOf (t : Text) : Nat := t.countP isBreak

@[simp] theorem columnAfter_nil (column : Nat) : columnAfter column [] = column := rfl

@[simp] theorem columnAfter_append (column : Nat) (t u : Text) :
    columnAfter column (t ++ u) = columnAfter (columnAfter column t) u :=
  List.foldl_append

theorem columnAfter_break {x : CodePoint} (isBreak_x : isBreak x = true) (column : Nat) (t : Text) :
    columnAfter column (x :: t) = columnAfter 0 t := by
  simp [columnAfter, isBreak_x]

/-- Behind line breaks a line begins. -/
theorem columnAfter_breaks {b : CodePoint} {bs : Text} (ends : ∀ x ∈ b :: bs, isBreak x = true)
    (column : Nat) : columnAfter column (b :: bs) = 0 := by
  rw [columnAfter_break (ends b List.mem_cons_self)]
  induction bs generalizing b with
  | nil => rfl
  | cons c bs ih =>
    obtain ⟨-, later⟩ := List.forall_mem_cons.mp ends
    rw [columnAfter_break (later c List.mem_cons_self)]
    exact ih later

theorem columnAfter_oneLine (column : Nat) {t : Text}
    (oneLine : ∀ x ∈ t, isBreak x = false ∧ x ≠ 0xFEFF) :
    columnAfter column t = column + t.length := by
  induction t generalizing column with
  | nil => rfl
  | cons x t ih =>
    obtain ⟨noBreak, visible⟩ := oneLine x List.mem_cons_self
    have one : columnAfter column [x] = column + 1 := by simp [columnAfter, noBreak, visible]
    have later := ih (column + 1) fun y member => oneLine y (List.mem_cons_of_mem x member)
    rw [← List.singleton_append, columnAfter_append, one, later, List.length_append]
    simp only [List.length_singleton]
    omega

theorem columnAfter_spaces (column n : Nat) :
    columnAfter column (List.replicate n 32) = column + n := by
  have oneLine : ∀ x ∈ List.replicate n (32 : CodePoint), isBreak x = false ∧ x ≠ 0xFEFF := by
    intro x member
    rw [List.eq_of_mem_replicate member]
    decide
  rw [columnAfter_oneLine column oneLine, List.length_replicate]

/-- A line break and some spaces. -/
def newLine (column : Nat) : Text := 10 :: List.replicate column 32

@[simp] theorem columnAfter_newLine (start column : Nat) :
    columnAfter start (newLine column) = column := by
  rw [newLine, columnAfter_break rfl, columnAfter_spaces, Nat.zero_add]

@[simp] theorem linesOf_append (t u : Text) : linesOf (t ++ u) = linesOf t + linesOf u :=
  List.countP_append

theorem linesOf_newLine (column : Nat) : linesOf (newLine column) = 1 := by
  have none : (List.replicate column 32).countP isBreak = 0 := by
    rw [List.countP_eq_zero]
    intro x member
    rw [List.eq_of_mem_replicate member]
    decide
  rw [linesOf, newLine, List.countP_cons, none]
  rfl

theorem linesOf_eq_zero {t : Text} (oneLine : ∀ x ∈ t, isBreak x = false) : linesOf t = 0 := by
  rw [linesOf, List.countP_eq_zero]
  intro x member
  simp [oneLine x member]

namespace Cursor

/-- The cursor between what has been read and what is left. -/
def behind (read rest : Text) : Cursor := ⟨rest, read.length, linesOf read, columnAfter 0 read⟩

variable {read rest t u : Text} {x : CodePoint}

@[simp] theorem rest_behind : (behind read rest).rest = rest := rfl

@[simp] theorem index_behind : (behind read rest).index = read.length := rfl

@[simp] theorem line_behind : (behind read rest).line = linesOf read := rfl

@[simp] theorem column_behind : (behind read rest).column = columnAfter 0 read := rfl

theorem peekAt_behind (n : Nat) : (behind read rest).peekAt n = rest.getD n 0 := rfl

@[simp] theorem peek_behind_cons : (behind read (x :: rest)).peek = x := rfl

@[simp] theorem next_behind_cons : (behind read (x :: rest)).next = behind (read ++ [x]) rest := by
  unfold next behind
  simp only
  split
  · next isBreak_x =>
    simp [linesOf, columnAfter, isBreak_x]
  · next other =>
    simp only [linesOf, List.countP_append, List.countP_singleton, other, columnAfter,
      List.foldl_append, List.foldl_cons, List.foldl_nil, List.length_append, List.length_singleton,
      Bool.false_eq_true, if_false, Nat.add_zero]

theorem advance_behind (t : Text) :
    (behind read (t ++ rest)).advance t.length = behind (read ++ t) rest := by
  induction t generalizing read with
  | nil => simp [advance]
  | cons x t ih =>
    rw [List.cons_append, List.length_cons, advance, next_behind_cons, ih]
    simp

theorem takeWhile_append_of_stop {p : CodePoint → Bool} (all : ∀ x ∈ t, p x = true)
    (stop : ∀ x ∈ rest.head?, p x = false) : (t ++ rest).takeWhile p = t := by
  rw [List.takeWhile_append_of_pos all]
  cases rest with
  | nil => simp
  | cons x rest =>
    have fails : p x = false := stop x rfl
    simp [fails]

theorem span_behind (read : Text) {p : CodePoint → Bool} (all : ∀ x ∈ t, p x = true)
    (stop : ∀ x ∈ rest.head?, p x = false) :
    (behind read (t ++ rest)).span p = (t, behind (read ++ t) rest) := by
  simp only [span, rest_behind, takeWhile_append_of_stop all stop, advance_behind]

theorem skip_behind {p : CodePoint → Bool} (all : ∀ x ∈ t, p x = true)
    (stop : ∀ x ∈ rest.head?, p x = false) :
    (behind read (t ++ rest)).skip p = behind (read ++ t) rest := by
  rw [skip, span_behind read all stop]

theorem skip_behind_stop {p : CodePoint → Bool} (stop : ∀ x ∈ rest.head?, p x = false) :
    (behind read rest).skip p = behind read rest := by
  have none : ∀ x ∈ ([] : Text), p x = true := List.forall_mem_nil _
  simpa using (skip_behind none stop : (behind read ([] ++ rest)).skip p = _)

theorem lineBreak?_behind_cons (isBreak_x : isBreak x = true) :
    (behind read (x :: rest)).lineBreak? =
      some (if x = 0x85 then 10 else x, behind (read ++ [x]) rest) := by
  simp only [lineBreak?, peek_behind_cons, isBreak_x, if_true, next_behind_cons]
  rfl

theorem lineBreak?_eq_none (read : Text) (stop : ∀ x ∈ rest.head?, isBreak x = false) :
    (behind read rest).lineBreak? = none := by
  cases rest with
  | nil => rfl
  | cons x rest =>
    have other : isBreak x = false := stop x rfl
    simp [lineBreak?, other]

/-- Only at the start of a line, and by a hyphen or a point, can a document begin or end. -/
theorem atDocument_eq_false
    (inside : columnAfter 0 read ≠ 0 ∨ ∀ x ∈ rest.head?, x ≠ 45 ∧ x ≠ 46) :
    (behind read rest).atDocument = false := by
  rcases inside with column | head
  · simp [atDocument, atMark, column]
  · cases rest with
    | nil => simp [atDocument, atMark]
    | cons x rest =>
      obtain ⟨hyphen, point⟩ := head x rfl
      simp [atDocument, atMark, hyphen, point]

theorem atDocument_spaces {column : Nat} (indented : 0 < column) :
    (behind read (List.replicate column 32 ++ rest)).atDocument = false := by
  refine atDocument_eq_false (.inr fun x head => ?_)
  cases column with
  | zero => exact absurd indented (Nat.lt_irrefl 0)
  | succ column =>
    obtain rfl := Option.some.inj head
    decide

end Cursor

end SwaggerDoc.Yaml
