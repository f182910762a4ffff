import SwaggerDoc.Proofs.Yaml.Pages
import SwaggerDoc.Proofs.Yaml.Pieces

/-!
How texts are spelled.

Each way to write a scalar is followed through its pieces or its characters: what comes to the page
stands for the text, wherever lines are folded on the way.
-/

namespace SwaggerDoc.Yaml

open Page

/-! ## Between single quotes -/

/-- A quote between single quotes is written twice. -/
def quotesTwice (t : Text) : Text := t.flatMap fun c => if c = 39 then [39, 39] else [c]

section SingleQuoted

variable {column : Nat} {w t u : Text}

theorem SingleQuoted.solid (shows : SingleQuoted column w t) (solid : BeginsSolid t) :
    BeginsSolid w := by
  cases shows with
  | nil => exact solid
  | raw plain ink =>
    intro y head
    obtain rfl := Option.some.inj head
    exact ink
  | quote =>
    intro y head
    obtain rfl := Option.some.inj head
    rfl
  | spaces n => cases solid 32 rfl
  | fold => cases solid 32 rfl
  | @breaks b bs w t ends =>
    have ink := solid b rfl
    simp [isSeparator, (ends b List.mem_cons_self).1] at ink

theorem SingleQuoted.word (ink : ∀ x ∈ u, isPlainCharacter x = true ∧ isSeparator x = false)
    (shows : SingleQuoted column w t) : SingleQuoted column (quotesTwice u ++ w) (u ++ t) := by
  induction u with
  | nil => exact shows
  | cons x u ih =>
    obtain ⟨plain, solid⟩ := ink x List.mem_cons_self
    have later := ih fun y member => ink y (List.mem_cons_of_mem x member)
    by_cases quote : x = 39
    · subst quote
      exact later.quote
    · have same : quotesTwice (x :: u) = x :: quotesTwice u := by
        simp [quotesTwice, quote]
      rw [same]
      exact later.raw plain solid quote

/-- A gap that comes next can be folded, because the line has more than its indentation. -/
def MayFold (p : Page) (column : Nat) (ps : List Piece) : Prop :=
  p.indenting = false ∨ column < p.column ∨ BeginsWord ps ∧ column ≤ p.column

theorem mayFold_put {p : Page} {ps qs : List Piece} (may : MayFold p column ps) {v : Text}
    (some : v ≠ []) : MayFold (p.put v) column qs := by
  have longer : 0 < v.length := List.length_pos_iff.mpr some
  have grown : (p.put v).column = p.column + v.length := rfl
  rcases may with inked | beyond | ⟨-, there⟩
  · exact .inl inked
  · exact .inr (.inl (by omega))
  · exact .inr (.inl (by omega))

theorem mayFold_indent {p : Page} {ps : List Piece} (there : p.AtIndent column)
    (word : BeginsWord ps) : MayFold p column ps :=
  .inr (.inr ⟨word, Nat.le_of_eq there.column.symm⟩)

theorem MayFold.due {p : Page} {piece : Piece} {ps : List Piece}
    (may : MayFold p column (piece :: ps)) (gap : ∀ u, piece ≠ .word u) :
    p.indenting = false ∨ column < p.column := by
  rcases may with inked | beyond | ⟨word, -⟩
  · exact .inl inked
  · exact .inr beyond
  · obtain ⟨u, same⟩ := word piece rfl
    exact absurd same (gap u)

theorem quotesTwice_append (t u : Text) : quotesTwice (t ++ u) = quotesTwice t ++ quotesTwice u :=
  List.flatMap_append

theorem quotesTwice_spaces (n : Nat) : quotesTwice (List.replicate n 32) = List.replicate n 32 := by
  induction n with
  | zero => rfl
  | succ n ih =>
    rw [List.replicate_succ]
    exact congrArg (32 :: ·) ih

/-- What is written piece by piece stands for the text between single quotes. On one line, it is the
text with its quotes written twice. -/
theorem exists_singleQuoted (column : Nat) {ps : List Piece} (runs : Runs t ps) (quotable : Quotable t)
    (folds first : Bool) {p : Page} (may : MayFold p column ps) :
    ∃ w, Wrote p w (Page.pieces column folds quotesTwice first ps p) ∧ SingleQuoted column w t ∧
      (folds = false → (∀ x ∈ t, isBreak x = false) → w = quotesTwice t) := by
  induction runs generalizing p first with
  | nil => exact ⟨[], .refl p, .nil, fun _ _ => rfl⟩
  | @spaces n t ps other runs ih =>
    have word := quotable.beginsWord_of_spaces runs other
    have solid := runs.beginsSolid (fun x member => (quotable.of_append.plain x member).1) word
    rw [Page.pieces]
    split
    · next folded =>
      obtain rfl : n = 0 := by simp at folded; omega
      obtain ⟨newLine, there⟩ := indent_new column (may.due nofun)
      obtain ⟨w, wrote, shows, -⟩ := ih quotable.of_append false (mayFold_indent there word)
      exact ⟨_, newLine.trans wrote, .fold (shows.solid solid) shows,
        fun off => by simp [off] at folded⟩
    · obtain ⟨w, wrote, shows, plainly⟩ := ih quotable.of_append false
        (mayFold_put may (v := List.replicate (n + 1) 32) (by simp))
      refine ⟨_, (wrote_put p _).trans wrote, .spaces n (shows.solid solid) shows,
        fun off oneLine => ?_⟩
      rw [quotesTwice_append, quotesTwice_spaces,
        plainly off fun x member => oneLine x (List.mem_append_right _ member)]
  | @breaks b bs t ps ends other runs ih =>
    have word := quotable.beginsWord_of_breaks runs ends other
    have solid := runs.beginsSolid (fun x member => (quotable.of_append.plain x member).1) word
    have ends' : ∀ x ∈ b :: bs, isBreak x = true ∧ x ≠ 0x85 := fun x member =>
      ⟨ends x member, (quotable.plain x (List.mem_append_left _ member)).2⟩
    have doubled : Wrote p (if b = 10 then [10] else [])
        (if (b :: bs).head? = some 10 then p.endLine else p) := by
      by_cases feed : b = 10
      · subst feed
        exact wrote_endLineBy p 10
      · simp only [List.head?_cons, Option.some.injEq, if_neg feed]
        exact .refl p
    rw [Page.pieces]
    generalize (if (b :: bs).head? = some 10 then p.endLine else p) = q at doubled ⊢
    have lines := wrote_foldl_endLineBy q (b :: bs)
    obtain ⟨spaces, there⟩ :=
      indent_lineStart (atIndent_foldl_endLineBy (t := b :: bs) nofun q) column
    obtain ⟨w, wrote, shows, -⟩ := ih quotable.of_append false (mayFold_indent there word)
    refine ⟨_, (doubled.trans lines).trans (spaces.trans wrote),
      .breaks ends' (shows.solid solid) shows, fun _ oneLine => ?_⟩
    cases (ends b List.mem_cons_self).symm.trans (oneLine b (by simp))
  | @word x u t ps ink other runs ih =>
    have ink' : ∀ y ∈ x :: u, isPlainCharacter y = true ∧ isSeparator y = false := by
      intro y member
      have plain := (quotable.plain y (List.mem_append_left t member)).1
      exact ⟨plain, isSeparator_of_plain plain (ink y member).1 (ink y member).2⟩
    have some : quotesTwice (x :: u) ≠ [] := by
      simp only [quotesTwice, List.flatMap_cons]
      split <;> simp
    obtain ⟨w, wrote, shows, plainly⟩ := ih quotable.of_append false (mayFold_put may some)
    refine ⟨_, (wrote_put p _).trans wrote, shows.word ink', fun off oneLine => ?_⟩
    rw [quotesTwice_append, plainly off fun y member => oneLine y (List.mem_append_right _ member)]

end SingleQuoted

/-! ## Without quotes -/

/-- What is written piece by piece stands for the text without quotes. On one line, it is the text.
-/
theorem exists_unquoted (column : Nat) {t : Text} {ps : List Piece} (runs : Runs t ps)
    (plain : PlainText t) (folds first : Bool) {p : Page}
    (may : p.indenting = false ∨ column ≤ p.column) :
    ∃ w, Wrote p w (Page.pieces column folds id first ps p) ∧ Unquoted column w t ∧
      (folds = false → w = t) := by
  rcases plain.cases_runs runs with ⟨word, rfl⟩ | ⟨u, n, t', ps', word, plain', runs', rfl, rfl⟩
  · exact ⟨t, wrote_put p t, .word word, fun _ => rfl⟩
  · have wordWritten := wrote_put p u
    have longer : 0 < u.length := List.length_pos_iff.mpr word.nonempty
    have due : (p.put u).indenting = false ∨ column < (p.put u).column := by
      have grown : (p.put u).column = p.column + u.length := rfl
      rcases may with inked | there
      · exact .inl inked
      · exact .inr (by omega)
    rw [Page.pieces, Page.pieces]
    split
    · next folded =>
      obtain rfl : n = 0 := by simp at folded; omega
      obtain ⟨newLine, there⟩ := indent_new column due
      obtain ⟨w, wrote, shows, -⟩ := exists_unquoted column runs' plain' folds false
        (.inr (Nat.le_of_eq there.column.symm))
      exact ⟨_, wordWritten.trans (newLine.trans wrote), .fold word shows,
        fun off => by simp [off] at folded⟩
    · have spaces := wrote_put (p.put u) (List.replicate (n + 1) 32)
      obtain ⟨w, wrote, shows, plainly⟩ := exists_unquoted column runs' plain' folds false
        (p := (p.put u).put (List.replicate (n + 1) 32))
        (due.imp id fun beyond => Nat.le_add_right_of_le (Nat.le_of_lt beyond))
      refine ⟨_, wordWritten.trans (spaces.trans wrote), .spaces n word shows, fun off => ?_⟩
      rw [plainly off]
termination_by ps.length

/-! ## Between double quotes -/

/-- A character between double quotes, on one line. -/
def spelled (c : CodePoint) : Text := if needsEscape c then escape c else [c]

section DoubleQuoted

variable {column : Nat} {w t : Text} {x : CodePoint}

theorem DoubleQuoted.cons_space (shows : DoubleQuoted column w t) :
    DoubleQuoted column (32 :: w) (32 :: t) := by
  cases shows with
  | spaces n last shows => exact .spaces (n + 1) last shows
  | nil => exact .spaces 0 nofun .nil
  | raw needless ink shows =>
    exact .spaces 0 (fun same => ink (Option.some.inj same)) (.raw needless ink shows)
  | escape character shows => exact .spaces 0 nofun (.escape character shows)
  | space shows => exact .spaces 0 nofun (.space shows)
  | fold ink shows => exact .spaces 0 nofun (.fold ink shows)

theorem DoubleQuoted.cons (needless : needsEscape x = false) (shows : DoubleQuoted column w t) :
    DoubleQuoted column (x :: w) (x :: t) := by
  by_cases space : x = 32
  · subst space
    exact shows.cons_space
  · exact .raw needless space shows

theorem DoubleQuoted.head_ne_space (shows : DoubleQuoted column w t) (ink : t.head? ≠ some 32) :
    w.head? ≠ some 32 := by
  cases shows with
  | nil => exact ink
  | raw needless other => exact fun same => other (Option.some.inj same)
  | spaces n => exact absurd rfl ink
  | escape | space | fold => exact nofun

/-- A line is ended by a backslash, and a space at the start of the next one gets a backslash. -/
def foldLine (p : Page) (column : Nat) (waiting : Text) (next : CodePoint) : Page :=
  let q := ((p.put (waiting ++ [92])).indent column).inText
  if next = 32 then q.put [92] else q

theorem wrote_foldLine {p : Page} (inked : p.indenting = false) (column : Nat) (waiting : Text)
    (next : CodePoint) :
    Wrote p (waiting ++ (92 :: newLine column ++ if next = 32 then [92] else []))
        (foldLine p column waiting next) ∧
      (foldLine p column waiting next).indenting = false ∧
      (foldLine p column waiting next).column = column + if next = 32 then 1 else 0 := by
  have ends := wrote_put p (waiting ++ [92])
  obtain ⟨newLine, there⟩ := indent_new (p := p.put (waiting ++ [92])) column (.inl inked)
  have both := wrote_inText (ends.trans newLine)
  unfold foldLine
  split
  · have all := both.trans (wrote_put _ [92])
    refine ⟨by simpa using all, rfl, ?_⟩
    exact congrArg (· + 1) there.column
  · exact ⟨by simpa using both, rfl, there.column⟩

theorem doubleQuotedFrom_escaped {folds first : Bool} {waiting rest : Text} {p : Page}
    (needed : needsEscape x = true) :
    doubleQuotedFrom column folds waiting first (x :: rest) p =
      let q := (p.put waiting.reverse).put (escape x)
      if folds && !first && !rest.isEmpty && decide (q.column > width + 1) then
        doubleQuotedFrom column folds [] false rest (foldLine q column [] (rest.head?.getD 0))
      else doubleQuotedFrom column folds [] false rest q := by
  rw [doubleQuotedFrom]
  simp only [needed, if_true, List.isEmpty_nil, Bool.or_true, Bool.and_true, List.length_nil,
    Nat.add_zero, List.reverse_nil]
  rfl

theorem doubleQuotedFrom_raw {folds first : Bool} {waiting rest : Text} {p : Page}
    (needless : needsEscape x = false) :
    doubleQuotedFrom column folds waiting first (x :: rest) p =
      if folds && !first && !rest.isEmpty && (x = 32 || waiting.isEmpty) &&
          decide (p.column + waiting.length > width) then
        doubleQuotedFrom column folds [x] false rest (foldLine p column waiting.reverse x)
      else doubleQuotedFrom column folds (x :: waiting) false rest p := by
  rw [doubleQuotedFrom]
  simp only [needless, Bool.false_eq_true, if_false]
  rfl

theorem doubleQuotedFrom_fits {folds first : Bool} {waiting rest : Text} {p : Page}
    (needless : needsEscape x = false) (fits : rest = [] ∨ p.column + waiting.length ≤ width) :
    doubleQuotedFrom column folds waiting first (x :: rest) p =
      doubleQuotedFrom column folds (x :: waiting) false rest p := by
  rw [doubleQuotedFrom_raw needless]
  refine if_neg fun due => ?_
  simp only [Bool.and_eq_true, decide_eq_true_eq, Bool.not_eq_true', List.isEmpty_eq_false_iff]
    at due
  rcases fits with last | short
  · exact due.1.1.2 last
  · exact absurd due.2 (Nat.not_lt.mpr short)

/-- What is left of a text can be folded between double quotes: its lines begin before the width, or
no space comes behind an escaped character. A line is folded neither behind the first character nor
in front of the last one, so these do not count. -/
def FoldableFrom (column : Nat) (first : Bool) (t : Text) : Prop :=
  column < width ∨ Apart needsEscape (· == 32) (if first then t.tail else t).dropLast

/-- A text can be folded between double quotes. -/
def Foldable (column : Nat) (t : Text) : Prop := FoldableFrom column true t

theorem FoldableFrom.tail {first : Bool} (foldable : FoldableFrom column first (x :: t)) :
    FoldableFrom column false t := by
  refine foldable.imp id fun apart => ?_
  cases first with
  | true => exact apart
  | false =>
    cases t with
    | nil => exact fun a x y b same => absurd same (by simp)
    | cons y t => exact Apart.of_append (u := [x]) apart

/-- What is written character by character stands for the text between double quotes. On one line,
each character is spelled by itself. -/
theorem exists_doubleQuoted (t : Text) (characters : ∀ x ∈ t, x < 0x110000) (folds : Bool)
    (first : Bool) (foldable : folds = true → FoldableFrom column first t) (waiting : Text)
    {p : Page} (inked : p.indenting = false) :
    ∃ w, Wrote p (waiting.reverse ++ w) (doubleQuotedFrom column folds waiting first t p) ∧
      DoubleQuoted column w t ∧ (folds = false → w = t.flatMap spelled) := by
  match t with
  | [] =>
    exact ⟨[], by simpa [doubleQuotedFrom] using wrote_put p waiting.reverse, .nil, fun _ => rfl⟩
  | x :: t =>
    have character : x < 0x110000 := characters x List.mem_cons_self
    have characters' : ∀ y ∈ t, y < 0x110000 := fun y member =>
      characters y (List.mem_cons_of_mem x member)
    have foldable' : folds = true → FoldableFrom column false t := fun on => (foldable on).tail
    by_cases needed : needsEscape x = true
    · rw [doubleQuotedFrom_escaped needed]
      have escaped :
          Wrote p (waiting.reverse ++ escape x) ((p.put waiting.reverse).put (escape x)) :=
        (wrote_put p _).trans (wrote_put _ _)
      have spelled_x : spelled x = escape x := if_pos needed
      simp only
      split
      · next due =>
        have inked₁ : ((p.put waiting.reverse).put (escape x)).indenting = false := inked
        obtain ⟨folded, inked', reached⟩ := wrote_foldLine inked₁ column [] (t.head?.getD 0)
        have line := escaped.trans folded
        by_cases space : t.head? = some 32
        · obtain ⟨t, rfl⟩ := List.head?_eq_some_iff.mp space
          have on : folds = true ∧ first = false := by
            cases folds <;> cases first <;> first | exact ⟨rfl, rfl⟩ | cases due
          obtain ⟨on, rfl⟩ := on
          -- The space behind the new backslash is not folded once more.
          have fits : t = [] ∨ (foldLine ((p.put waiting.reverse).put (escape x)) column []
              32).column + ([] : Text).length ≤ width := by
            have there : (foldLine ((p.put waiting.reverse).put (escape x)) column []
                32).column = column + 1 := reached
            rw [there]
            rcases foldable on with narrow | apart
            · exact .inr narrow
            · cases t with
              | nil => exact .inl rfl
              | cons y t => exact absurd (apart [] x 32 (y :: t).dropLast rfl needed) nofun
          rw [List.head?_cons, Option.getD_some, doubleQuotedFrom_fits rfl fits]
          obtain ⟨w, wrote, shows, -⟩ := exists_doubleQuoted t
            (fun y member => characters' y (List.mem_cons_of_mem 32 member)) folds false
            (fun on => (foldable' on).tail) [32] inked'
          have all := line.trans wrote
          refine ⟨_, by simpa using all, ?_, fun off => by simp [off] at due⟩
          simpa using (shows.space.fold (by simp)).escape character
        · have other : ¬t.head?.getD 0 = 32 := by
            cases t with
            | nil => exact nofun
            | cons y t => exact fun same => space (congrArg some same)
          obtain ⟨w, wrote, shows, -⟩ := exists_doubleQuoted t characters' folds false foldable' []
            inked'
          have all := line.trans wrote
          refine ⟨_, by simpa [other] using all, ?_, fun off => by simp [off] at due⟩
          simpa using (shows.fold (shows.head_ne_space space)).escape character
      · obtain ⟨w, wrote, shows, plainly⟩ :=
          exists_doubleQuoted t characters' folds false foldable' []
          (p := (p.put waiting.reverse).put (escape x)) inked
        refine ⟨escape x ++ w, by simpa using escaped.trans wrote, .escape character shows,
          fun off => ?_⟩
        rw [List.flatMap_cons, spelled_x, plainly off]
    · have needless : needsEscape x = false := by simpa using needed
      have spelled_x : spelled x = [x] := if_neg needed
      rw [doubleQuotedFrom_raw needless]
      split
      · next due =>
        obtain ⟨folded, inked', -⟩ := wrote_foldLine inked column waiting.reverse x
        obtain ⟨w, wrote, shows, -⟩ := exists_doubleQuoted t characters' folds false foldable' [x]
          inked'
        have all := folded.trans wrote
        rw [List.append_assoc] at all
        refine ⟨_, all, ?_, fun off => by simp [off] at due⟩
        by_cases space : x = 32
        · subst space
          simpa using (shows.space.fold (by simp))
        · have head : (x :: w).head? ≠ some 32 := fun same => space (Option.some.inj same)
          simpa [space] using ((shows.raw needless space).fold head)
      · obtain ⟨w, wrote, shows, plainly⟩ := exists_doubleQuoted t characters' folds false foldable'
          (x :: waiting) inked
        refine ⟨x :: w, by simpa using wrote, shows.cons needless, fun off => ?_⟩
        rw [List.flatMap_cons, spelled_x, plainly off]
        rfl
termination_by t.length

end DoubleQuoted

/-! ## In the style that is chosen -/

/-- A text without quotes begins neither with an indicator nor with the bound of a document. -/
structure BeginsPlain (t : Text) : Prop where
  free : ∀ x rest, t = x :: rest → Features.leadsStructure x (isSeparator (rest.headD 0)) = false
  hyphens : Text.startsWith t (text "---") = false
  points : Text.startsWith t (text "...") = false

theorem beginsPlain_of_features {t : Text} (some : t ≠ [])
    (allowed : (Features.of t).plain = true) : BeginsPlain t := by
  obtain ⟨c, rest, rfl⟩ := List.exists_cons_of_ne_nil some
  simp only [Features.of, Bool.and_eq_true, Bool.not_eq_true', Bool.or_eq_false_iff] at allowed
  obtain ⟨-, ⟨⟨hyphens, points⟩, leads⟩, -⟩ := allowed
  refine ⟨?_, hyphens, points⟩
  intro x rest' same
  obtain ⟨rfl, rfl⟩ := List.cons.inj same
  cases rest with
  | nil => exact leads
  | cons next rest => exact leads

/-- The characters of a scalar stand for a text, without quotes or between them. -/
inductive Spells (column : Nat) : (written : Text) → (plain : Bool) → (meaning : Text) → Prop
  | unquoted {w t : Text} : BeginsPlain t → Unquoted column w t → Spells column w true t
  | singleQuoted {w t : Text} : SingleQuoted column w t → Spells column (39 :: w ++ [39]) false t
  | doubleQuoted {w t : Text} : DoubleQuoted column w t → Spells column (34 :: w ++ [34]) false t

/-- What a scalar on one line is written as. -/
def oneLine (style : Style) (t : Text) : Text :=
  match style with
  | .singleQuoted => 39 :: quotesTwice t ++ [39]
  | .doubleQuoted => 34 :: t.flatMap spelled ++ [34]
  | _ => t

section Scalar

variable {column : Nat} {t : Text} {p : Page} {folds : Bool}

theorem exists_plain (column : Nat) (p : Page) (folds : Bool) (some : t ≠ [])
    (allowed : (Features.of t).plain = true) :
    ∃ w, Wrote p (p.led true w) (p.plain column folds false t) ∧
      (p.plain column folds false t).Inked ∧ Spells column w true t ∧
      (folds = false → w = oneLine .plain t) := by
  have notEmpty : t.isEmpty = false := by simpa using some
  have lead : Wrote p (p.led true []) (if p.separated then p else p.put [32]) := by
    unfold led
    cases separated : p.separated with
    | true => exact Wrote.refl p
    | false => exact wrote_put p [32]
  obtain ⟨w, wrote, shows, plainly⟩ := exists_unquoted column (runs_pieces t)
    (plainText_of_features some allowed) folds true
    (p := (if p.separated then p else p.put [32]).inText) (.inl rfl)
  have written : p.plain column folds false t = (Page.pieces column folds id true (pieces t)
      (if p.separated then p else p.put [32]).inText).inText := by
    simp [Page.plain, notEmpty]
  rw [written]
  refine ⟨w, ?_, ⟨rfl, rfl⟩, .unquoted (beginsPlain_of_features some allowed) shows, plainly⟩
  rw [← List.nil_append w, led_append]
  exact wrote_inText ((wrote_inText lead).trans wrote)

theorem exists_singleQuotes (column : Nat) (p : Page) (folds : Bool)
    (allowed : (Features.of t).singleQuoted = true)
    (noNextLine : ∀ x ∈ t, x ≠ 0x85) :
    ∃ w, Wrote p (p.led true w) (p.singleQuoted column folds t) ∧
      (p.singleQuoted column folds t).Inked ∧ Spells column w false t ∧
      (folds = false → (∀ x ∈ t, isBreak x = false) → w = oneLine .singleQuoted t) := by
  obtain ⟨w, wrote, shows, plainly⟩ := exists_singleQuoted column (runs_pieces t)
    (quotable_of_features allowed noNextLine) folds true (p := p.indicator [39] true false false)
    (.inl (Bool.and_false _))
  obtain ⟨written, inked⟩ := wrote_quotes 39 wrote
  refine ⟨_, written, inked, .singleQuoted shows, fun off lines => ?_⟩
  rw [plainly off lines]
  rfl

theorem exists_doubleQuotes (column : Nat) (p : Page) (folds : Bool)
    (characters : ∀ x ∈ t, x < 0x110000)
    (foldable : folds = true → Foldable column t) :
    ∃ w, Wrote p (p.led true w) (p.doubleQuoted column folds t) ∧
      (p.doubleQuoted column folds t).Inked ∧ Spells column w false t ∧
      (folds = false → w = oneLine .doubleQuoted t) := by
  obtain ⟨w, wrote, shows, plainly⟩ := exists_doubleQuoted t characters folds true foldable []
    (p := p.indicator [34] true false false) (Bool.and_false _)
  obtain ⟨written, inked⟩ := wrote_quotes 34 wrote
  refine ⟨_, written, inked, .doubleQuoted shows, fun off => ?_⟩
  rw [plainly off]
  rfl

/-- The texts that come through. A line break that reading changes must not stand between single
quotes, and where lines are folded between double quotes it must be possible to do so. -/
structure Legible (column : Nat) (folds : Bool) (t : Text) : Prop where
  characters : ∀ x ∈ t, x < 0x110000
  noNextLine : (Features.of t).singleQuoted = true → ∀ x ∈ t, x ≠ 0x85
  foldable : (Features.of t).singleQuoted = false → folds = true → Foldable column t

theorem choose_eq_plain {tag : NodeTag} {key : Bool}
    (plain : Style.choose tag t false key = .plain) :
    Implicit.tag t = tag ∧ (Features.of t).plain = true := by
  unfold Style.choose at plain
  simp only [Bool.false_eq_true, if_false] at plain
  split at plain
  · next chosen =>
    simp only [Bool.and_eq_true, beq_iff_eq] at chosen
    exact chosen.1
  · split at plain <;> cases plain

theorem choose_ne_literal {tag : NodeTag} {key : Bool} :
    Style.choose tag t false key ≠ .literal := by
  unfold Style.choose
  simp only [Bool.false_eq_true, if_false]
  split
  · nofun
  · split <;> nofun

theorem choose_eq_singleQuoted {tag : NodeTag} {key : Bool}
    (quoted : Style.choose tag t false key = .singleQuoted) :
    (Features.of t).singleQuoted = true := by
  unfold Style.choose at quoted
  simp only [Bool.false_eq_true, if_false] at quoted
  split at quoted
  · cases quoted
  · split at quoted
    · next chosen =>
      simp only [Bool.and_eq_true] at chosen
      exact chosen.1
    · cases quoted

/-- What may stand between single quotes does, unless it is a key of several lines. -/
theorem choose_eq_doubleQuoted {tag : NodeTag} {key : Bool}
    (quoted : Style.choose tag t false key = .doubleQuoted) (noKey : (!key) = true) :
    (Features.of t).singleQuoted = false := by
  unfold Style.choose at quoted
  simp only [Bool.false_eq_true, if_false] at quoted
  split at quoted
  · cases quoted
  · split at quoted
    · cases quoted
    · next other =>
      cases allowed : (Features.of t).singleQuoted with
      | false => rfl
      | true => simp_all

/-- A scalar is written without its tag when it is a text, or plain. -/
theorem exists_spelled {tag : NodeTag} (position : Position) (inner : position.root = false)
    (legible : Legible column (!position.key) t)
    (untagged : tag ≠ .string → Style.choose tag t false position.key = .plain ∧ t ≠ []) :
    ∃ w, Wrote p (p.led true w) (p.scalar column position tag t false) ∧
      (p.scalar column position tag t false).Inked ∧
      Spells column w (Style.choose tag t false position.key == .plain) t ∧
      (position.key = true → (∀ x ∈ t, isBreak x = false) →
        w = oneLine (Style.choose tag t false position.key) t) := by
  unfold Page.scalar
  cases style : Style.choose tag t false position.key with
  | literal => exact absurd style choose_ne_literal
  | plain =>
    obtain ⟨implicit, allowed⟩ := choose_eq_plain style
    have some : t ≠ [] := by
      rintro rfl
      refine (untagged fun string => ?_).2 rfl
      rw [string] at implicit
      cases implicit
    obtain ⟨w, wrote, inked, shows, plainly⟩ :=
      exists_plain column p (!position.key) some allowed
    have noTag : (Implicit.tag t != tag) = false := by simp [implicit]
    simp only [if_true, noTag, Bool.false_eq_true, if_false, inner]
    exact ⟨w, wrote, inked, shows, fun key _ => plainly (by simp [key])⟩
  | singleQuoted =>
    have string : tag = .string := Decidable.byContradiction fun other => by
      cases style.symm.trans (untagged other).1
    have allowed := choose_eq_singleQuoted style
    obtain ⟨w, wrote, inked, shows, plainly⟩ := exists_singleQuotes column p (!position.key)
      allowed (legible.noNextLine allowed)
    subst string
    exact ⟨w, wrote, inked, shows, fun key lines => plainly (by simp [key]) lines⟩
  | doubleQuoted =>
    have string : tag = .string := Decidable.byContradiction fun other => by
      cases style.symm.trans (untagged other).1
    obtain ⟨w, wrote, inked, shows, plainly⟩ := exists_doubleQuotes column p (!position.key)
      legible.characters fun on =>
        legible.foldable (choose_eq_doubleQuoted style on) on
    subst string
    exact ⟨w, wrote, inked, shows, fun key _ => plainly (by simp [key])⟩

end Scalar

end SwaggerDoc.Yaml
