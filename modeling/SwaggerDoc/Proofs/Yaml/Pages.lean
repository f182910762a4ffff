import SwaggerDoc.Proofs.Yaml.Cursor
import SwaggerDoc.Yaml.Writer

/-!
What is written on a page.

`Page.Wrote` says which characters one page has more than another. The steps that write say so one
by one, and `Page.Wrote.trans` puts them together. Indentation starts a new line behind a text, and
fills the line up behind an indicator.
-/

namespace SwaggerDoc.Yaml.Page

/-- A page comes from another by writing characters. -/
structure Wrote (p : Page) (w : Text) (q : Page) : Prop where
  reversed : q.reversed = w.reverse ++ p.reversed
  openEnded : q.openEnded = true → p.openEnded = true

variable {p q r : Page} {v w : Text} {column : Nat}

theorem Wrote.refl (p : Page) : Wrote p [] p := ⟨rfl, id⟩

theorem Wrote.trans (first : Wrote p v q) (later : Wrote q w r) : Wrote p (v ++ w) r where
  reversed := by rw [later.reversed, first.reversed, List.reverse_append, List.append_assoc]
  openEnded left := first.openEnded (later.openEnded left)

theorem wrote_put (p : Page) (t : Text) : Wrote p t (p.put t) := ⟨rfl, id⟩

theorem wrote_inText (wrote : Wrote p w q) : Wrote p w q.inText := ⟨wrote.reversed, wrote.openEnded⟩

/-- What an indicator is written as: with a space in front if it needs one. -/
def led (p : Page) (spaced : Bool) (t : Text) : Text :=
  if p.separated || !spaced then t else 32 :: t

theorem led_append (p : Page) (spaced : Bool) (v w : Text) :
    p.led spaced (v ++ w) = p.led spaced v ++ w := by
  unfold led
  split <;> rfl

theorem wrote_indicator (p : Page) (t : Text) (spaced opens indents : Bool) :
    Wrote p (p.led spaced t) (p.indicator t spaced opens indents) := by
  unfold indicator led
  split
  · exact ⟨rfl, nofun⟩
  · exact ⟨rfl, nofun⟩

/-- A page behind a text. -/
structure Inked (p : Page) : Prop where
  separated : p.separated = false
  indenting : p.indenting = false

/-- What is written between two equal quotes. -/
theorem wrote_quotes (quote : CodePoint)
    (inner : Wrote (p.indicator [quote] true false false) w q) :
    Wrote p (p.led true (quote :: w ++ [quote])) (q.indicator [quote] false false false) ∧
      (q.indicator [quote] false false false).Inked := by
  have opens := wrote_indicator p [quote] true false false
  have closes : Wrote q [quote] (q.indicator [quote] false false false) := by
    have ends := wrote_indicator q [quote] false false false
    rwa [led, Bool.not_false, Bool.or_true, if_pos rfl] at ends
  refine ⟨?_, rfl, Bool.and_false _⟩
  rw [List.cons_append, ← List.singleton_append, led_append]
  exact opens.trans (inner.trans closes)

theorem wrote_endLineBy (p : Page) (c : CodePoint) : Wrote p [c] (p.endLineBy c) := ⟨rfl, id⟩

/-- Line ends come one after the other. -/
theorem wrote_foldl_endLineBy (p : Page) (t : Text) : Wrote p t (t.foldl endLineBy p) := by
  induction t generalizing p with
  | nil => exact .refl p
  | cons c t ih => exact (wrote_endLineBy p c).trans (ih (p.endLineBy c))

/-- A page on which nothing but indentation up to a column stands on the line. -/
structure AtIndent (p : Page) (column : Nat) : Prop where
  column : p.column = column
  separated : p.separated = true
  indenting : p.indenting = true

theorem atIndent_endLineBy (p : Page) (c : CodePoint) : (p.endLineBy c).AtIndent 0 :=
  ⟨rfl, rfl, rfl⟩

theorem atIndent_foldl_endLineBy {t : Text} (some : t ≠ []) (p : Page) :
    (t.foldl endLineBy p).AtIndent 0 := by
  obtain ⟨t, c, rfl⟩ := List.eq_nil_or_concat t |>.resolve_left some
  simp only [List.concat_eq_append, List.foldl_append, List.foldl_cons, List.foldl_nil]
  exact atIndent_endLineBy _ c

/-- At the start of a line or behind indicators, spaces lead to a column. -/
theorem indent_on (inside : p.column < column) (indenting : p.indenting = true) :
    Wrote p (List.replicate (column - p.column) 32) (p.indent column) ∧
      (p.indent column).AtIndent column := by
  have stays : (!p.indenting || decide (p.column > column) ||
      (p.column == column && !p.separated)) = false := by
    have other : (p.column == column) = false := beq_eq_false_iff_ne.mpr (Nat.ne_of_lt inside)
    have before : decide (p.column > column) = false := decide_eq_false (Nat.lt_asymm inside)
    simp only [indenting, before, other, Bool.not_true, Bool.false_and, Bool.or_false]
  have spaces : p.indent column =
      { p.put (List.replicate (column - p.column) 32) with separated := true } := by
    rw [indent, stays]
    exact if_pos inside
  rw [spaces]
  refine ⟨⟨rfl, id⟩, ?_, rfl, indenting⟩
  simp only [put, List.length_replicate]
  omega

theorem indent_lineStart (start : p.AtIndent 0) (column : Nat) :
    Wrote p (List.replicate column 32) (p.indent column) ∧ (p.indent column).AtIndent column := by
  cases column with
  | zero =>
    have same : p.indent 0 = p := by
      simp [indent, start.column, start.separated, start.indenting]
    rw [same]
    exact ⟨.refl p, start.column, start.separated, start.indenting⟩
  | succ column =>
    have inside : p.column < column + 1 := by
      rw [start.column]
      exact Nat.succ_pos column
    have filled := indent_on inside start.indenting
    rwa [start.column] at filled

/-- Behind a text, and beyond the column, a new line begins. -/
theorem indent_new (column : Nat) (due : p.indenting = false ∨ column < p.column) :
    Wrote p (newLine column) (p.indent column) ∧ (p.indent column).AtIndent column := by
  have ends : (!p.indenting || decide (p.column > column) ||
      (p.column == column && !p.separated)) = true := by
    rcases due with inked | beyond
    · simp [inked]
    · simp [beyond]
  have same : p.indent column = (p.endLineBy 10).indent column := by
    have start := atIndent_endLineBy p 10
    have stays : (!(p.endLineBy 10).indenting || decide ((p.endLineBy 10).column > column) ||
        ((p.endLineBy 10).column == column && !(p.endLineBy 10).separated)) = false := by
      simp [start.column, start.separated, start.indenting]
    rw [indent, indent, stays, ends]
    rfl
  obtain ⟨spaces, there⟩ := indent_lineStart (atIndent_endLineBy p 10) column
  rw [same]
  exact ⟨(wrote_endLineBy p 10).trans spaces, there⟩

end SwaggerDoc.Yaml.Page
