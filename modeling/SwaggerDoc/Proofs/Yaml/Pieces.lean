import SwaggerDoc.Proofs.Yaml.Unquoted

/-!
The pieces of a text, and what the style of a text says about them.

`Runs` says how a text is put together from its pieces (`runs_pieces`). A text that can stand
between single quotes has no line break beside a space, and one that can stand without quotes is
made of plain words (`PlainText`).
-/

namespace SwaggerDoc.Yaml

/-- A text is put together from pieces, of which no two of a kind follow each other. -/
inductive Runs : Text → List Piece → Prop
  | nil : Runs [] []
  | spaces (n : Nat) {t : Text} {ps : List Piece} (other : ∀ m, ps.head? ≠ some (.spaces m)) :
    Runs t ps → Runs (List.replicate (n + 1) 32 ++ t) (.spaces (n + 1) :: ps)
  | breaks {b : CodePoint} {bs t : Text} {ps : List Piece}
    (ends : ∀ x ∈ b :: bs, isBreak x = true) (other : ∀ u, ps.head? ≠ some (.breaks u)) :
    Runs t ps → Runs (b :: bs ++ t) (.breaks (b :: bs) :: ps)
  | word {x : CodePoint} {u t : Text} {ps : List Piece}
    (ink : ∀ y ∈ x :: u, y ≠ 32 ∧ isBreak y = false) (other : ∀ v, ps.head? ≠ some (.word v)) :
    Runs t ps → Runs (x :: u ++ t) (.word (x :: u) :: ps)

theorem Runs.single {t : Text} {ps : List Piece} (runs : Runs t ps) (c : CodePoint)
    (spaces : c = 32 → ∀ m, ps.head? ≠ some (.spaces m))
    (breaks : isBreak c = true → ∀ u, ps.head? ≠ some (.breaks u))
    (words : c ≠ 32 → isBreak c = false → ∀ v, ps.head? ≠ some (.word v)) :
    Runs (c :: t) (pieces.single c ps) := by
  unfold pieces.single
  by_cases space : c = 32
  · subst space
    exact .spaces 0 (spaces rfl) runs
  · by_cases ends : isBreak c = true
    · rw [if_neg space, if_pos ends]
      exact .breaks (List.forall_mem_singleton.mpr ends) (breaks ends) runs
    · have ink : isBreak c = false := by simpa using ends
      rw [if_neg space, if_neg ends]
      exact .word (List.forall_mem_singleton.mpr ⟨space, ink⟩) (words space ink) runs

theorem runs_pieces (t : Text) : Runs t (pieces t) := by
  induction t with
  | nil => exact .nil
  | cons c t ih =>
    unfold pieces
    generalize pieces t = found at ih ⊢
    cases found with
    | nil => exact ih.single c nofun nofun nofun
    | cons piece ps =>
      cases piece with
      | spaces n =>
        dsimp only
        split
        · next space =>
          subst space
          cases ih with
          | spaces n other runs => exact .spaces (n + 1) other runs
        · next ink => exact ih.single c (absurd · ink) nofun nofun
      | breaks u =>
        dsimp only
        split
        · next ends =>
          cases ih with
          | breaks ends' other runs =>
            exact .breaks (List.forall_mem_cons.mpr ⟨ends, ends'⟩) other runs
        · next ink => exact ih.single c nofun (absurd · ink) nofun
      | word u =>
        dsimp only
        split
        · next blank =>
          refine ih.single c nofun nofun fun noSpace noBreak => ?_
          simp [noSpace, noBreak] at blank
        · next ink =>
          have ink' : c ≠ 32 ∧ isBreak c = false := by simpa using ink
          cases ih with
          | word more other runs =>
            exact .word (List.forall_mem_cons.mpr ⟨ink', more⟩) other runs

/-! ## Characters beside each other -/

/-- No two characters that satisfy two tests follow each other. -/
def Apart (p q : CodePoint → Bool) (t : Text) : Prop :=
  ∀ a x y b, t = a ++ x :: y :: b → p x = true → q y = false

theorem Apart.of_adjacent {p q : CodePoint → Bool} {t : Text}
    (none : Features.adjacent p q t = false) : Apart p q t := by
  intro a x y b same first
  subst same
  induction a with
  | nil =>
    simp only [List.nil_append, Features.adjacent, first, Bool.true_and,
      Bool.or_eq_false_iff] at none
    exact none.1
  | cons c a ih =>
    cases a with
    | nil =>
      simp only [List.cons_append, List.nil_append, Features.adjacent,
        Bool.or_eq_false_iff] at none ih
      exact ih none.2
    | cons d a =>
      simp only [List.cons_append, Features.adjacent, Bool.or_eq_false_iff] at none ih
      exact ih none.2

theorem Apart.of_append {p q : CodePoint → Bool} {u t : Text} (apart : Apart p q (u ++ t)) :
    Apart p q t := by
  intro a x y b same
  exact apart (u ++ a) x y b (by rw [same, List.append_assoc])

/-! ## Texts between single quotes -/

/-- A text can stand between single quotes. -/
structure Quotable (t : Text) : Prop where
  plain : ∀ x ∈ t, isPlainCharacter x = true ∧ x ≠ 0x85
  breakSpace : Apart isBreak (· == 32) t
  spaceBreak : Apart (· == 32) isBreak t

theorem Quotable.of_append {u t : Text} (quotable : Quotable (u ++ t)) : Quotable t where
  plain x member := quotable.plain x (List.mem_append_right u member)
  breakSpace := quotable.breakSpace.of_append
  spaceBreak := quotable.spaceBreak.of_append

theorem quotable_of_features {t : Text} (allowed : (Features.of t).singleQuoted = true)
    (noNextLine : ∀ x ∈ t, x ≠ 0x85) : Quotable t := by
  cases t with
  | nil =>
    refine ⟨List.forall_mem_nil _, ?_, ?_⟩
    · intro a x y b same
      simp at same
    · intro a x y b same
      simp at same
  | cons c t =>
    simp only [Features.of, Bool.and_eq_true, Bool.not_eq_true', Bool.or_eq_false_iff,
      Bool.not_eq_false', List.all_eq_true] at allowed
    obtain ⟨⟨spaceBreak, plain⟩, breakSpace⟩ := allowed
    exact ⟨fun x member => ⟨plain x member, noNextLine x member⟩, .of_adjacent breakSpace,
      .of_adjacent spaceBreak⟩

/-- Among the characters of written texts only spaces and line breaks separate. -/
theorem isSeparator_of_plain {x : CodePoint} (plain : isPlainCharacter x = true) (ink : x ≠ 32)
    (noBreak : isBreak x = false) : isSeparator x = false := by
  have other : x ≠ 0 ∧ x ≠ 9 ∧ x ≠ 13 := by
    refine ⟨?_, ?_, ?_⟩ <;> rintro rfl <;> cases plain
  simp [isSeparator, other, ink, noBreak]

/-- Nothing but a word comes first. -/
def BeginsWord (ps : List Piece) : Prop := ∀ piece ∈ ps.head?, ∃ u, piece = .word u

theorem Runs.beginsSolid {t : Text} {ps : List Piece} (runs : Runs t ps)
    (plain : ∀ x ∈ t, isPlainCharacter x = true) (word : BeginsWord ps) : BeginsSolid t := by
  cases runs with
  | nil => exact nofun
  | spaces n =>
    obtain ⟨u, same⟩ := word _ rfl
    cases same
  | breaks =>
    obtain ⟨u, same⟩ := word _ rfl
    cases same
  | @word x u t ps ink =>
    intro y head
    obtain rfl := Option.some.inj head
    obtain ⟨noSpace, noBreak⟩ := ink x List.mem_cons_self
    exact isSeparator_of_plain (plain x List.mem_cons_self) noSpace noBreak

/-- Behind spaces no line break comes. -/
theorem Quotable.beginsWord_of_spaces {n : Nat} {t : Text} {ps : List Piece}
    (quotable : Quotable (List.replicate (n + 1) 32 ++ t)) (runs : Runs t ps)
    (other : ∀ m, ps.head? ≠ some (.spaces m)) : BeginsWord ps := by
  cases runs with
  | nil => exact nofun
  | spaces m => exact absurd rfl (other (m + 1))
  | word => exact fun piece head => ⟨_, (Option.some.inj head).symm⟩
  | @breaks b bs t ps ends =>
    have same : List.replicate (n + 1) 32 ++ (b :: bs ++ t) =
        List.replicate n 32 ++ 32 :: b :: (bs ++ t) := by
      rw [List.replicate_succ']
      simp
    have noBreak := quotable.spaceBreak _ 32 b _ same rfl
    rw [ends b List.mem_cons_self] at noBreak
    cases noBreak

/-- Behind line breaks no space comes. -/
theorem Quotable.beginsWord_of_breaks {b : CodePoint} {bs t : Text} {ps : List Piece}
    (quotable : Quotable (b :: bs ++ t)) (runs : Runs t ps)
    (ends : ∀ x ∈ b :: bs, isBreak x = true) (other : ∀ u, ps.head? ≠ some (.breaks u)) :
    BeginsWord ps := by
  cases runs with
  | nil => exact nofun
  | breaks => exact absurd rfl (other _)
  | word => exact fun piece head => ⟨_, (Option.some.inj head).symm⟩
  | @spaces n t ps =>
    obtain ⟨front, last, same⟩ := List.eq_nil_or_concat (b :: bs) |>.resolve_left nofun
    rw [List.concat_eq_append] at same
    have last_break : isBreak last = true := ends last (by rw [same]; simp)
    have split : b :: bs ++ (List.replicate (n + 1) 32 ++ t) =
        front ++ last :: 32 :: (List.replicate n 32 ++ t) := by
      rw [same, List.replicate_succ]
      simp
    cases quotable.breakSpace _ last 32 _ split last_break

/-! ## Texts without quotes -/

/-- A text can stand without quotes behind a blank. -/
structure PlainText (t : Text) : Prop where
  nonempty : t ≠ []
  plain : ∀ x ∈ t, isPlainCharacter x = true ∧ isBreak x = false
  solid : BeginsSolid t
  last : t.getLast? ≠ some 32
  colons : ∀ a b, t = a ++ 58 :: b → isSeparator (b.headD 0) = false
  comments : ∀ a x b, t = a ++ x :: 35 :: b → isSeparator x = false
  noComment : t.head? ≠ some 35

theorem holdsStructure_append {previous : CodePoint} {a b : Text} {c : CodePoint}
    (free : Features.holdsStructure previous (a ++ c :: b) = false) :
    (c = 58 → isSeparator (b.headD 0) = false) ∧
      (c = 35 → isSeparator ((previous :: a).getLastD 0) = false) := by
  induction a generalizing previous with
  | nil =>
    simp only [List.nil_append, Features.holdsStructure, Bool.or_eq_false_iff,
      Bool.and_eq_false_iff, beq_eq_false_iff_ne] at free
    obtain ⟨⟨colon, comment⟩, -⟩ := free
    constructor
    · intro same
      have next := colon.resolve_left (absurd same)
      cases b with
      | nil => cases next
      | cons d b => exact next
    · intro same
      exact comment.resolve_left (absurd same)
  | cons d a ih =>
    simp only [List.cons_append, Features.holdsStructure, Bool.or_eq_false_iff] at free
    exact ih free.2

/-- What cannot begin a text without quotes: an indicator, or what is one in front of a blank. -/
theorem not_indicator {c : CodePoint} {separated : Bool}
    (free : Features.leadsStructure c separated = false) :
    (text "#,[]\x7b\x7d&*!|>'\"%@`").contains c = false ∧
      (separated = true → c ≠ 63 ∧ c ≠ 58 ∧ c ≠ 45) := by
  simp only [Features.leadsStructure, Bool.or_eq_false_iff, Bool.and_eq_false_iff,
    beq_eq_false_iff_ne] at free
  obtain ⟨indicators, others⟩ := free
  refine ⟨indicators, fun blank => ?_⟩
  obtain ⟨⟨question, colon⟩, hyphen⟩ := others.resolve_right (by simp [blank])
  exact ⟨question, colon, hyphen⟩

theorem plainText_of_features {t : Text} (some : t ≠ [])
    (allowed : (Features.of t).plain = true) : PlainText t := by
  obtain ⟨c, rest, rfl⟩ := List.exists_cons_of_ne_nil some
  simp only [Features.of, Bool.and_eq_true, Bool.not_eq_true', Bool.or_eq_false_iff,
    Bool.not_eq_false', List.all_eq_true, List.any_eq_false, beq_eq_false_iff_ne] at allowed
  obtain ⟨⟨⟨⟨⟨⟨-, plain⟩, -⟩, oneLine⟩, edge⟩, last⟩, ⟨-, leads⟩, holds⟩ := allowed
  have ink := isSeparator_of_plain (plain c List.mem_cons_self) edge.1 edge.2
  have noColon : c = 58 → isSeparator (rest.headD 0) = false := by
    rintro rfl
    cases rest with
    | nil => exact absurd rfl ((not_indicator leads).2 rfl).2.1
    | cons next rest =>
      exact Bool.eq_false_iff.mpr fun blank => ((not_indicator leads).2 blank).2.1 rfl
  refine ⟨nofun, fun x member => ⟨plain x member, by simpa using oneLine x member⟩,
    ?_, ?_, ?_, ?_, ?_⟩
  · intro x head
    obtain rfl := Option.some.inj head
    exact ink
  · intro space
    rw [space] at last
    exact last.1 rfl
  · intro a b same
    cases a with
    | nil =>
      obtain ⟨colon, rfl⟩ := List.cons.inj same
      exact noColon colon
    | cons d a =>
      obtain ⟨rfl, rfl⟩ := List.cons.inj same
      exact (holdsStructure_append holds).1 rfl
  · intro a x b same
    cases a with
    | nil =>
      obtain ⟨rfl, rfl⟩ := List.cons.inj same
      exact (holdsStructure_append (a := []) holds).2 rfl
    | cons d a =>
      obtain ⟨rfl, rfl⟩ := List.cons.inj same
      have split : a ++ x :: 35 :: b = (a ++ [x]) ++ 35 :: b := by simp
      have holds' : Features.holdsStructure c (a ++ x :: 35 :: b) = false := holds
      rw [split] at holds'
      have blank := (holdsStructure_append holds').2 rfl
      rwa [← List.cons_append, List.getLastD_concat] at blank
  · intro head
    obtain rfl := Option.some.inj head
    cases (not_indicator leads).1

theorem PlainText.of_spaces {u t : Text} {n : Nat}
    (plain : PlainText (u ++ (List.replicate (n + 1) 32 ++ t))) (solid : BeginsSolid t) :
    PlainText t where
  nonempty := by
    rintro rfl
    refine plain.last ?_
    rw [List.append_nil, List.replicate_succ', ← List.append_assoc, List.getLast?_concat]
  plain x member := plain.plain x (by simp [member])
  solid := solid
  last last := by
    obtain ⟨front, rfl⟩ := List.getLast?_eq_some_iff.mp last
    refine plain.last ?_
    rw [← List.append_assoc, ← List.append_assoc, List.getLast?_concat]
  colons a b same := plain.colons (u ++ (List.replicate (n + 1) 32 ++ a)) b (by simp [same])
  comments a x b same := plain.comments (u ++ (List.replicate (n + 1) 32 ++ a)) x b (by simp [same])
  noComment head := by
    obtain ⟨t, rfl⟩ := List.head?_eq_some_iff.mp head
    have blank := plain.comments (u ++ List.replicate n 32) 32 t (by simp [List.replicate_succ'])
    cases blank

/-- A text without quotes begins with a plain word, behind which it ends or goes on behind spaces.
-/
theorem PlainText.cases_runs {t : Text} {ps : List Piece} (plain : PlainText t)
    (runs : Runs t ps) :
    (PlainWord t ∧ ps = [.word t]) ∨
      ∃ u n t' ps', PlainWord u ∧ PlainText t' ∧ Runs t' ps' ∧
        t = u ++ (List.replicate (n + 1) 32 ++ t') ∧ ps = .word u :: .spaces (n + 1) :: ps' := by
  cases runs with
  | nil => exact absurd rfl plain.nonempty
  | spaces n => cases plain.solid 32 rfl
  | @breaks b bs t ps ends =>
    have noBreak := (plain.plain b (by simp)).2
    rw [ends b List.mem_cons_self] at noBreak
    cases noBreak
  | @word x u t ps ink other runs =>
    have solid : ∀ y ∈ x :: u, isSeparator y = false := fun y member =>
      isSeparator_of_plain (plain.plain y (List.mem_append_left t member)).1 (ink y member).1
        (ink y member).2
    have word (noColon : (x :: u).getLast? ≠ some 58) : PlainWord (x :: u) :=
      ⟨nofun, solid, fun y member => (plain.plain y (List.mem_append_left t member)).1,
        plain.noComment, noColon⟩
    cases runs with
    | nil =>
      rw [List.append_nil] at plain ⊢
      refine .inl ⟨word fun last => ?_, rfl⟩
      obtain ⟨a, same⟩ := List.getLast?_eq_some_iff.mp last
      cases plain.colons a [] same
    | word => exact absurd rfl (other _)
    | @breaks b bs t ps ends =>
      have noBreak := (plain.plain b (by simp)).2
      rw [ends b List.mem_cons_self] at noBreak
      cases noBreak
    | @spaces n t ps other' runs =>
      refine .inr ⟨x :: u, n, t, ps, word fun last => ?_, ?_, runs, rfl, rfl⟩
      · obtain ⟨a, same⟩ := List.getLast?_eq_some_iff.mp last
        have colon := plain.colons a (List.replicate (n + 1) 32 ++ t) (by rw [same]; simp)
        cases colon
      · refine plain.of_spaces (runs.beginsSolid ?_ ?_)
        · exact fun y member => (plain.plain y (by simp [member])).1
        · cases runs with
          | nil => exact nofun
          | spaces m => exact absurd rfl (other' (m + 1))
          | word => exact fun piece head => ⟨_, (Option.some.inj head).symm⟩
          | @breaks b bs t ps ends =>
            have noBreak := (plain.plain b (by simp)).2
            rw [ends b List.mem_cons_self] at noBreak
            cases noBreak

end SwaggerDoc.Yaml
