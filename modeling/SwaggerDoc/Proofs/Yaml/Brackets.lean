import SwaggerDoc.Proofs.Yaml.Steps

/-!
Scans between brackets.

Between brackets, and outside all blocks, nothing has to be a key and no block ends, so that blanks
of any kind only separate tokens. `Scan.Inside` is what holds there at every moment; each step keeps
it and leads to the next token behind the blanks (`Scan.Inside.moves`).
-/

namespace SwaggerDoc.Yaml

/-- Spaces and line feeds. -/
def AreBlank (gap : Text) : Prop := ∀ x ∈ gap, x = 32 ∨ x = 10

namespace Scan

/-- What could be a key need not be one. -/
def Needless (k : Option Candidate) : Prop := ∀ c ∈ k, c.needed = false

/-- A scan inside some pairs of brackets and outside all blocks, with what has been read, what is
left, and the tokens found, the last one first. -/
structure Inside (depth : Nat) (read rest : Text) (found : List Token) (s : Scan) : Prop where
  cursor : s.cursor = .behind read rest
  reversed : s.reversed = found
  count : s.count = found.length
  blocks : s.blocks = []
  depth : s.outer.length = depth
  candidate : Needless s.candidate
  outer : ∀ k ∈ s.outer, Needless k

variable {depth depth' : Nat} {read read' rest gap w : Text} {found found' : List Token}
  {s t u : Scan}

theorem Needless.filter {k : Option Candidate} (needless : Needless k) (p : Candidate → Bool) :
    Needless (k.filter p) := fun c member =>
  needless c (Option.mem_filter_iff.mp member).1

/-- A scan is given by what is known of it inside brackets and by what could be a key. -/
theorem Inside.exists_eq (inside : s.Inside depth read rest found) : ∃ allowed k outer,
    s = ⟨.behind read rest, found, found.length, [], allowed, k, outer⟩ ∧ outer.length = depth ∧
      Needless k ∧ ∀ k ∈ outer, Needless k := by
  obtain ⟨cursor, reversed, count, blocks, allowed, k, outer⟩ := s
  obtain ⟨cursor_eq, reversed_eq, count_eq, blocks_eq, depth_eq, needless, needless'⟩ := inside
  dsimp only at *
  subst cursor_eq reversed_eq count_eq blocks_eq
  exact ⟨allowed, k, outer, rfl, depth_eq, needless, needless'⟩

/-! ## Blanks -/

section Blanks

theorem skipSpaces_space (read rest : Text) :
    (Cursor.behind read (32 :: rest)).skipSpaces =
      (Cursor.behind (read ++ [32]) rest).skipSpaces := by
  simp [Cursor.skipSpaces, Cursor.skip, Cursor.span, Cursor.advance]

/-- Blanks are passed up to the next token, and between brackets they allow no key. -/
theorem passBlanks_gap (blank : AreBlank gap) (token : BeginsToken rest) (s : Scan) (read : Text)
    {n : Nat} (enough : gap.length < n) :
    ∃ allowed, passBlanks n (s.goTo (.behind read (gap ++ rest))) =
        (s.goTo (.behind (read ++ gap) rest)).allowKey allowed ∧
      (s.inFlow = true → allowed = s.keyAllowed) := by
  induction gap generalizing s read n with
  | nil =>
    obtain ⟨n, rfl⟩ := Nat.exists_eq_add_of_lt enough
    have skips : (Cursor.behind read rest).skipSpaces = .behind read rest :=
      Cursor.skip_behind_stop fun x head => (Lexeme.isSpace_of_solid (token.solid x head)).1
    have ends : (Cursor.behind read rest).lineBreak? = none :=
      Cursor.lineBreak?_eq_none _ fun x head => (Lexeme.isSpace_of_solid (token.solid x head)).2
    refine ⟨s.keyAllowed, ?_, fun _ => rfl⟩
    simp only [List.nil_append, List.append_nil, passBlanks, goTo, skips,
      skipComment_behind token.noComment, ends]
    rfl
  | cons x gap ih =>
    obtain ⟨n, rfl⟩ := Nat.exists_eq_add_of_lt enough
    obtain ⟨first, later⟩ := List.forall_mem_cons.mp blank
    have read_eq : read ++ x :: gap = read ++ [x] ++ gap := by simp
    rw [read_eq]
    rcases first with rfl | rfl
    · have same : passBlanks ((32 :: gap).length + n + 1)
          (s.goTo (.behind read (32 :: gap ++ rest))) =
          passBlanks ((32 :: gap).length + n + 1)
            (s.goTo (.behind (read ++ [32]) (gap ++ rest))) := by
        simp only [passBlanks, goTo, List.cons_append, skipSpaces_space]
        rfl
      rw [same]
      exact ih later s (read ++ [32]) (by simp only [List.length_cons]; omega)
    · have ends : (Cursor.behind read (10 :: (gap ++ rest))).skipSpaces.skipComment.lineBreak? =
          some (10, .behind (read ++ [10]) (gap ++ rest)) := Cursor.lineBreak?_behind_cons rfl
      obtain ⟨allowed, passed, kept⟩ := ih later (s.allowKey (s.keyAllowed || !s.inFlow))
        (read ++ [10]) (n := (10 :: gap).length + n) (by simp only [List.length_cons]; omega)
      refine ⟨allowed, ?_, fun flow => ?_⟩
      · simp only [passBlanks, List.cons_append, goTo, ends]
        exact passed
      · rw [kept flow, allowKey, flow]
        simp

/-- Behind blanks stands the next token. A key that could begin there still can, and what was found
may have become too far away to be a key. -/
theorem Inside.settle (inside : s.Inside depth read (gap ++ rest) found) (blank : AreBlank gap)
    (token : BeginsToken rest) :
    ∃ t, s.settle = .ok t ∧ t.Inside depth (read ++ gap) rest found ∧
      (0 < depth → t.keyAllowed = s.keyAllowed) ∧
      t.candidate = s.candidate.filter (!isStale (.behind (read ++ gap) rest) ·) := by
  obtain ⟨allowed, k, outer, rfl, rfl, needless, needless'⟩ := inside.exists_eq
  have noMark : (Cursor.behind read (gap ++ rest)).peek ≠ 0xFEFF := by
    cases gap with
    | nil =>
      rw [List.nil_append]
      exact peek_behind_ne_mark token.noMark
    | cons x gap =>
      rintro rfl
      rcases blank _ List.mem_cons_self with same | same <;> cases same
  obtain ⟨allowed', passed, kept⟩ := passBlanks_gap (n := (gap ++ rest).length + 1) blank token
    ⟨.behind read (gap ++ rest), found, found.length, [], allowed, k, outer⟩ read
    (by simp only [List.length_append]; omega)
  have notLost : ((k :: outer).any fun k => k.any fun c =>
      isStale (.behind (read ++ gap) rest) c && c.needed) = false := by
    refine List.any_eq_false.mpr fun k member => ?_
    have free : Needless k := by
      rcases List.mem_cons.mp member with rfl | member
      · exact needless
      · exact needless' k member
    cases k with
    | none => simp
    | some c => simp [free c rfl]
  refine ⟨⟨.behind (read ++ gap) rest, found, found.length, [], allowed',
    k.filter (!isStale (.behind (read ++ gap) rest) ·),
    outer.map (Option.filter (!isStale (.behind (read ++ gap) rest) ·))⟩, ?_,
    ⟨rfl, rfl, rfl, rfl, List.length_map _, needless.filter _, ?_⟩, fun inner => kept ?_, rfl⟩
  · have noMark' : ((Cursor.behind read (gap ++ rest)).index = 0 &&
        (Cursor.behind read (gap ++ rest)).peek = 0xFEFF) = false := by simp [noMark]
    unfold Scan.settle
    simp only [noMark', Bool.false_eq_true, if_false]
    simp only [goTo, Cursor.rest_behind] at passed ⊢
    rw [passed]
    simp only [dropStale, allowKey, notLost, Bool.false_eq_true, if_false, bind, Except.bind, pure,
      Except.pure]
    split <;> rfl
  · intro k member
    obtain ⟨k, listed, rfl⟩ := List.mem_map.mp member
    exact (needless' k listed).filter _
  · cases outer with
    | nil => cases inner
    | cons k outer => rfl

end Blanks

/-! ## Steps -/

section Steps

/-- A step over a token leads to the next token behind the blanks. -/
theorem Inside.moves {x : CodePoint} (inside : s.Inside depth read (x :: w) found)
    (some : x ≠ 0) (step : s.step = .ok u) (after : u.Inside depth' read' (gap ++ rest) found')
    (shorter : rest.length ≤ w.length) (blank : AreBlank gap) (token : BeginsToken rest) :
    ∃ t, Moves s t ∧ t.Inside depth' (read' ++ gap) rest found' ∧
      (0 < depth' → t.keyAllowed = u.keyAllowed) ∧
      t.candidate = u.candidate.filter (!isStale (.behind (read' ++ gap) rest) ·) := by
  obtain ⟨t, settled, inside', kept, candidate⟩ := after.settle blank token
  refine ⟨t, ⟨?_, ?_, u, step, settled⟩, inside', kept, candidate⟩
  · simpa [inside.cursor, Cursor.atEnd] using some
  · rw [inside.cursor, inside'.cursor]
    exact Nat.lt_succ_of_le shorter

theorem needless_none : Needless none := fun c member => by cases member

theorem dropCandidate_of_needless (needless : Needless s.candidate) :
    s.dropCandidate = .ok { s with candidate := none } := by
  obtain ⟨cursor, reversed, count, blocks, allowed, k, outer⟩ := s
  cases k with
  | none => rfl
  | some c => simp [dropCandidate, needless c rfl]

/-- What could be a key at a place. -/
def keyAt (read : Text) (found : List Token) : Candidate :=
  ⟨found.length, false, read.length, linesOf read, columnAfter 0 read⟩

theorem needless_keyAt (read : Text) (found : List Token) :
    Needless (some (keyAt read found)) := by
  intro c member
  obtain rfl := Option.some.inj member
  rfl

theorem Inside.proposeKey (inside : s.Inside depth read rest found) : ∃ k,
    s.proposeKey = .ok { s with candidate := k } ∧ Needless k ∧
      (s.keyAllowed = true → k = some (keyAt read found)) := by
  obtain ⟨allowed, k, outer, rfl, rfl, needless, needless'⟩ := inside.exists_eq
  cases allowed with
  | false => exact ⟨k, rfl, needless, Bool.noConfusion⟩
  | true =>
    refine ⟨some (keyAt read found), ?_, needless_keyAt read found, fun _ => rfl⟩
    have dropped : dropCandidate ⟨.behind read rest, found, found.length, [], true, k, outer⟩ =
        .ok ⟨.behind read rest, found, found.length, [], true, none, outer⟩ :=
      dropCandidate_of_needless needless
    unfold Scan.proposeKey
    simp only [if_true, dropped, bind, Except.bind, pure, Except.pure]
    simp [keyAt, margin]

/-- A bracket that begins a collection allows a key behind it. -/
theorem Inside.step_left {left right : CodePoint} {opening closing : Token}
    (inside : s.Inside depth read (left :: rest) found)
    (pair : Pair left right opening closing) : ∃ u, s.step = .ok u ∧
      u.Inside (depth + 1) (read ++ [left]) rest (opening :: found) ∧ u.keyAllowed = true := by
  obtain ⟨k, proposed, needless, -⟩ := inside.proposeKey
  obtain ⟨allowed, k', outer, rfl, rfl, -, needless'⟩ := inside.exists_eq
  have noStart : (Cursor.behind read (left :: rest)).atMark 45 = false :=
    atMark_of_ne (by cases pair <;> decide)
  have noEnd : (Cursor.behind read (left :: rest)).atMark 46 = false :=
    atMark_of_ne (by cases pair <;> decide)
  have step_eq : step ⟨.behind read (left :: rest), found, found.length, [], allowed, k', outer⟩ =
      openFlow ⟨.behind read (left :: rest), found, found.length, [], allowed, k', outer⟩
        opening := by
    unfold step
    simp only [noStart, noEnd]
    cases pair <;> rfl
  refine ⟨⟨.behind (read ++ [left]) rest, opening :: found, found.length + 1, [], true, none,
    k :: outer⟩, ?_, ⟨rfl, rfl, rfl, rfl, rfl, ?_, ?_⟩, rfl⟩
  · rw [step_eq, openFlow, proposed]
    simp [bind, Except.bind, pure, Except.pure, allowKey, single, goTo, emit]
  · exact needless_none
  · exact List.forall_mem_cons.mpr ⟨needless, needless'⟩

/-- A bracket that ends a collection. -/
theorem Inside.step_right {left right : CodePoint} {opening closing : Token}
    (inside : s.Inside (depth + 1) read (right :: rest) found)
    (pair : Pair left right opening closing) : ∃ u, s.step = .ok u ∧
      u.Inside depth (read ++ [right]) rest (closing :: found) := by
  obtain ⟨allowed, k, outer, rfl, depth_eq, needless, needless'⟩ := inside.exists_eq
  obtain ⟨k', outer, rfl⟩ := List.exists_cons_of_length_eq_add_one depth_eq
  have noStart : (Cursor.behind read (right :: rest)).atMark 45 = false :=
    atMark_of_ne (by cases pair <;> decide)
  have noEnd : (Cursor.behind read (right :: rest)).atMark 46 = false :=
    atMark_of_ne (by cases pair <;> decide)
  have step_eq :
      step ⟨.behind read (right :: rest), found, found.length, [], allowed, k, k' :: outer⟩ =
      closeFlow ⟨.behind read (right :: rest), found, found.length, [], allowed, k, k' :: outer⟩
        closing := by
    unfold step
    simp only [noStart, noEnd]
    cases pair <;> rfl
  obtain ⟨first, others⟩ := List.forall_mem_cons.mp needless'
  refine ⟨⟨.behind (read ++ [right]) rest, closing :: found, found.length + 1, [], false, k',
    outer⟩, ?_, ⟨rfl, rfl, rfl, rfl, Nat.succ.inj depth_eq, first, others⟩⟩
  rw [step_eq, closeFlow, dropCandidate_of_needless needless]
  simp [bind, Except.bind, pure, Except.pure, allowKey, single, goTo, emit]

/-- A comma allows a key behind it. -/
theorem Inside.step_comma (inside : s.Inside depth read (44 :: rest) found) :
    ∃ u, s.step = .ok u ∧ u.Inside depth (read ++ [44]) rest (.comma :: found) ∧
      u.keyAllowed = true := by
  obtain ⟨allowed, k, outer, rfl, rfl, needless, needless'⟩ := inside.exists_eq
  have noStart : (Cursor.behind read (44 :: rest)).atMark 45 = false := atMark_of_ne (by decide)
  have noEnd : (Cursor.behind read (44 :: rest)).atMark 46 = false := atMark_of_ne (by decide)
  have step_eq : step ⟨.behind read (44 :: rest), found, found.length, [], allowed, k, outer⟩ =
      comma ⟨.behind read (44 :: rest), found, found.length, [], allowed, k, outer⟩ := by
    unfold step
    simp only [noStart, noEnd]
    rfl
  refine ⟨⟨.behind (read ++ [44]) rest, .comma :: found, found.length + 1, [], true, none,
    outer⟩, ?_, ⟨rfl, rfl, rfl, rfl, rfl, needless_none, needless'⟩, rfl⟩
  rw [step_eq, comma, dropCandidate_of_needless needless]
  simp [bind, Except.bind, pure, Except.pure, allowKey, single, goTo, emit]

/-- A colon behind what could be a key makes it one. -/
theorem Inside.step_colon {name : Token}
    (inside : s.Inside (depth + 1) read (58 :: rest) (name :: found)) {front : Text}
    (key : s.candidate = some (keyAt front found)) : ∃ u, s.step = .ok u ∧
      u.Inside (depth + 1) (read ++ [58]) rest (.value :: name :: .key :: found) := by
  obtain ⟨allowed, k, outer, rfl, depth_eq, needless, needless'⟩ := inside.exists_eq
  obtain rfl : k = some (keyAt front found) := key
  obtain ⟨k', outer, rfl⟩ := List.exists_cons_of_length_eq_add_one depth_eq
  have noStart : (Cursor.behind read (58 :: rest)).atMark 45 = false := atMark_of_ne (by decide)
  have noEnd : (Cursor.behind read (58 :: rest)).atMark 46 = false := atMark_of_ne (by decide)
  have step_eq :
      step ⟨.behind read (58 :: rest), name :: found, (name :: found).length, [], allowed,
        some (keyAt front found), k' :: outer⟩ =
      value ⟨.behind read (58 :: rest), name :: found, (name :: found).length, [], allowed,
        some (keyAt front found), k' :: outer⟩ := by
    unfold step
    simp only [noStart, noEnd]
    rfl
  refine ⟨⟨.behind (read ++ [58]) rest, .value :: name :: .key :: found, found.length + 3, [],
    false, none, k' :: outer⟩, ?_,
    ⟨rfl, rfl, rfl, rfl, depth_eq, needless_none, needless'⟩⟩
  rw [step_eq]
  simp [value, insertAt, inFlow, keyAt, allowKey, single, goTo, emit]

/-- A scalar between quotes, which could be a key. -/
theorem Inside.step_quoted {t : Text} (inside : s.Inside depth read (34 :: rest) found)
    (quoted : Lexeme.quoted 34 (.behind read (34 :: rest)) = .ok (t, .behind read' w)) :
    ∃ u, s.step = .ok u ∧ u.Inside depth read' w (.scalar false t :: found) ∧
      (s.keyAllowed = true → u.candidate = some (keyAt read found)) := by
  obtain ⟨k, proposed, needless, key⟩ := inside.proposeKey
  obtain ⟨allowed, k', outer, rfl, rfl, -, needless'⟩ := inside.exists_eq
  have noStart : (Cursor.behind read (34 :: rest)).atMark 45 = false := atMark_of_ne (by decide)
  have noEnd : (Cursor.behind read (34 :: rest)).atMark 46 = false := atMark_of_ne (by decide)
  have step_eq : step ⟨.behind read (34 :: rest), found, found.length, [], allowed, k', outer⟩ =
      lexeme ⟨.behind read (34 :: rest), found, found.length, [], allowed, k', outer⟩ fun c =>
        Lexeme.quoted 34 c >>= fun (found : Text × Cursor) =>
          .ok (.scalar false found.1, found.2) := by
    unfold step
    simp only [noStart, noEnd]
    rfl
  refine ⟨⟨.behind read' w, .scalar false t :: found, found.length + 1, [], false, k, outer⟩, ?_,
    ⟨rfl, rfl, rfl, rfl, rfl, needless, needless'⟩, key⟩
  rw [step_eq, lexeme, proposed]
  simp only [bind, Except.bind, quoted]
  rfl

/-- A scalar without quotes between brackets. -/
theorem Inside.step_plain {t : Text} {broke : Bool}
    (inside : s.Inside (depth + 1) read rest found)
    (step_eq : s.step = s.plain)
    (plain : Lexeme.plain true 0 (.behind read rest) = ⟨t, .behind read' w, broke⟩) :
    ∃ u, s.step = .ok u ∧ u.Inside (depth + 1) read' w (.scalar true t :: found) := by
  obtain ⟨k, proposed, needless, -⟩ := inside.proposeKey
  obtain ⟨allowed, k', outer, rfl, depth_eq, -, needless'⟩ := inside.exists_eq
  obtain ⟨o, outer, rfl⟩ := List.exists_cons_of_length_eq_add_one depth_eq
  refine ⟨⟨.behind read' w, .scalar true t :: found, found.length + 1, [], broke, k, o :: outer⟩,
    ?_, ⟨rfl, rfl, rfl, rfl, depth_eq, needless, needless'⟩⟩
  rw [step_eq, Scan.plain, proposed]
  simp only [bind, Except.bind, inFlow, margin, List.isEmpty_cons, Bool.not_false, plain]
  rfl

end Steps

/-! ## From token to token -/

section Moves

variable {left right : CodePoint} {opening closing : Token}

theorem length_le_append (gap rest : Text) : rest.length ≤ (gap ++ rest).length := by
  rw [List.length_append]
  exact Nat.le_add_left _ _

/-- Behind the bracket that begins a collection a key can begin. -/
theorem Inside.moves_left (inside : s.Inside depth read (left :: (gap ++ rest)) found)
    (pair : Pair left right opening closing) (blank : AreBlank gap) (token : BeginsToken rest) :
    ∃ t, Moves s t ∧ t.Inside (depth + 1) (read ++ left :: gap) rest (opening :: found) ∧
      t.keyAllowed = true := by
  obtain ⟨u, step, after, allowed⟩ := inside.step_left pair
  obtain ⟨t, moves, inside', kept, -⟩ := inside.moves (by cases pair <;> decide) step after
    (length_le_append gap rest) blank token
  exact ⟨t, moves, by simpa using inside', (kept (Nat.succ_pos depth)).trans allowed⟩

theorem Inside.moves_right (inside : s.Inside (depth + 1) read (right :: (gap ++ rest)) found)
    (pair : Pair left right opening closing) (blank : AreBlank gap) (token : BeginsToken rest) :
    ∃ t, Moves s t ∧ t.Inside depth (read ++ right :: gap) rest (closing :: found) := by
  obtain ⟨u, step, after⟩ := inside.step_right pair
  obtain ⟨t, moves, inside', -⟩ := inside.moves (by cases pair <;> decide) step after
    (length_le_append gap rest) blank token
  exact ⟨t, moves, by simpa using inside'⟩

/-- Behind a comma a key can begin. -/
theorem Inside.moves_comma (inside : s.Inside (depth + 1) read (44 :: (gap ++ rest)) found)
    (blank : AreBlank gap) (token : BeginsToken rest) :
    ∃ t, Moves s t ∧ t.Inside (depth + 1) (read ++ 44 :: gap) rest (.comma :: found) ∧
      t.keyAllowed = true := by
  obtain ⟨u, step, after, allowed⟩ := inside.step_comma
  obtain ⟨t, moves, inside', kept, -⟩ := inside.moves (by decide) step after
    (length_le_append gap rest) blank token
  exact ⟨t, moves, by simpa using inside', (kept (Nat.succ_pos depth)).trans allowed⟩

/-- What is between quotes can be a key until a line ends or it is too far away. -/
theorem Inside.moves_quoted {t : Text} {w : Text} (inside : s.Inside depth read (34 :: w) found)
    (quoted : Lexeme.quoted 34 (.behind read (34 :: w)) = .ok (t, .behind read' (gap ++ rest)))
    (shorter : rest.length ≤ w.length) (blank : AreBlank gap) (token : BeginsToken rest) :
    ∃ u, Moves s u ∧ u.Inside depth (read' ++ gap) rest (.scalar false t :: found) ∧
      (s.keyAllowed = true → isStale (.behind (read' ++ gap) rest) (keyAt read found) = false →
        u.candidate = some (keyAt read found)) := by
  obtain ⟨u, step, after, key⟩ := inside.step_quoted quoted
  obtain ⟨u', moves, inside', -, candidate⟩ := inside.moves (by decide) step after shorter blank
    token
  refine ⟨u', moves, inside', fun allowed fresh => ?_⟩
  rw [candidate, key allowed]
  simp [fresh]

/-- The colon behind a key. -/
theorem Inside.moves_colon {name : Token} {front : Text}
    (inside : s.Inside (depth + 1) read (58 :: (gap ++ rest)) (name :: found))
    (key : s.candidate = some (keyAt front found)) (blank : AreBlank gap)
    (token : BeginsToken rest) :
    ∃ t, Moves s t ∧
      t.Inside (depth + 1) (read ++ 58 :: gap) rest (.value :: name :: .key :: found) := by
  obtain ⟨u, step, after⟩ := inside.step_colon key
  obtain ⟨t, moves, inside', -⟩ := inside.moves (by decide) step after
    (length_le_append gap rest) blank token
  exact ⟨t, moves, by simpa using inside'⟩

end Moves

end Scan

end SwaggerDoc.Yaml
