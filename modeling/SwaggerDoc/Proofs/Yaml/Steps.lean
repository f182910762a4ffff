import Mathlib.Data.Bool.Basic
import SwaggerDoc.Proofs.Yaml.Readable
import SwaggerDoc.Proofs.Yaml.Scanning

/-!
The steps of a scan over written data.

Each part of written data takes a scan outside brackets from one place where a token begins to the
next: an indicator (`moves_item`, `moves_question`, `moves_colon`), a scalar (`moves_scalar`), a key
in front of a colon (`moves_simpleKey`) and an empty pair of brackets (`moves_brackets`).
-/

namespace SwaggerDoc.Yaml

theorem beginsToken_cons {x : CodePoint} (rest : Text)
    (ink : isSeparator x = false ∧ x ≠ 35 ∧ x ≠ 0xFEFF) : BeginsToken (x :: rest) where
  solid y head := by
    obtain rfl := Option.some.inj head
    exact ink.1
  noComment same := ink.2.1 (Option.some.inj same)
  noMark same := ink.2.2 (Option.some.inj same)

/-- What comes first is no blank, no comment and no byte order mark. -/
def BeginsInk (w : Text) : Prop :=
  ∃ x v, w = x :: v ∧ isSeparator x = false ∧ x ≠ 35 ∧ x ≠ 0xFEFF

section BeginsInk

variable {w : Text}

theorem BeginsInk.append (begins : BeginsInk w) (rest : Text) : BeginsInk (w ++ rest) := by
  obtain ⟨x, v, rfl, ink⟩ := begins
  exact ⟨x, v ++ rest, rfl, ink⟩

theorem BeginsInk.beginsToken (begins : BeginsInk w) : BeginsToken w := by
  obtain ⟨x, v, rfl, ink⟩ := begins
  exact beginsToken_cons v ink

theorem PlainWord.beginsInk (word : PlainWord w) : BeginsInk w := by
  obtain ⟨x, v, rfl, solid, noComment⟩ := word.exists_cons
  refine ⟨x, v, rfl, solid, noComment, ?_⟩
  rintro rfl
  cases word.plain _ List.mem_cons_self

theorem Spells.beginsInk {column : Nat} {t : Text} {plain : Bool}
    (shows : Spells column w plain t) :
    BeginsInk w := by
  cases shows with
  | singleQuoted => exact ⟨_, _, rfl, by decide⟩
  | doubleQuoted => exact ⟨_, _, rfl, by decide⟩
  | unquoted begins shows =>
    cases shows with
    | word first => exact first.beginsInk
    | spaces k first | fold first => exact first.beginsInk.append _

end BeginsInk

namespace Scan

variable {read rest w t : Text} {n : Nest} {allowed : Bool} {column : Nat}

/-! ## Indicators -/

section Indicators

theorem atMark_of_ne {x mark : CodePoint} (other : x ≠ mark) :
    (Cursor.behind read (x :: rest)).atMark mark = false := by
  simp [Cursor.atMark, other]

theorem atMark_hyphen : (Cursor.behind read (45 :: 32 :: rest)).atMark 45 = false := by
  cases rest <;> simp [Cursor.atMark]

theorem openBlockHere_between (t : Token) :
    (between read rest n true none).openBlockHere t =
      .ok (between read rest (n.opened t (columnAfter 0 read)) true none) := by
  have margin_eq : (between read rest n true none).margin = n.margin := rfl
  by_cases inside : n.margin ≤ columnAfter 0 read
  · simp [openBlockHere, openBlock, margin_eq, Nest.opened, inside]
    simp [between, inFlow, emit, inside]
  · simp [openBlockHere, openBlock, margin_eq, Nest.opened, inside]
    simp [between, inFlow, inside]

/-- An indicator begins a block in its column, unless the innermost one begins there. -/
theorem moves_indicator {x : CodePoint} (t u : Token) (visible : isBreak x = false ∧ x ≠ 0xFEFF)
    (some : x ≠ 0)
    (step : (between read (x :: 32 :: rest) n true none).step =
      .ok (between (read ++ [x]) (32 :: rest) ((n.opened t (columnAfter 0 read)).emit u) true none))
    (reached : n.margin ≤ columnAfter 0 read + 1) (token : BeginsToken rest) :
    Moves (between read (x :: 32 :: rest) n true none)
      (between (read ++ [x, 32]) rest ((n.opened t (columnAfter 0 read)).emit u) true none) where
  goesOn := by simpa [between, Cursor.atEnd] using some
  shorter := by
    simp only [between, Cursor.rest_behind, List.length_cons]
    omega
  steps := by
    refine ⟨_, step, ?_⟩
    have settled := settle_spaces (read ++ [x])
      ((n.opened t (columnAfter 0 read)).emit u) true 1 token
    have there : columnAfter 0 (read ++ [x]) = columnAfter 0 read + 1 := by
      rw [columnAfter_append, columnAfter_oneLine _ (List.forall_mem_singleton.mpr visible)]
      rfl
    have stays : ((n.opened t (columnAfter 0 read)).emit u).closed (columnAfter 0 read + 1 + 1) =
        (n.opened t (columnAfter 0 read)).emit u := by
      refine Nest.closed_of_margin_le ?_
      rw [Nest.margin_emit, Nest.margin_opened t reached]
      omega
    rw [there, stays, List.append_assoc] at settled
    exact settled

/-- The hyphen in front of an item. -/
theorem moves_item (reached : n.margin ≤ columnAfter 0 read + 1) (token : BeginsToken rest) :
    Moves (between read (45 :: 32 :: rest) n true none) (between (read ++ [45, 32]) rest
      ((n.opened .blockSequence (columnAfter 0 read)).emit .item) true none) := by
  have noEnd : (Cursor.behind read (45 :: 32 :: rest)).atMark 46 = false :=
    atMark_of_ne (by decide)
  have step_eq : (between read (45 :: 32 :: rest) n true none).step =
      (between read (45 :: 32 :: rest) n true none).item := by
    unfold step
    simp only [between, atMark_hyphen, noEnd]
    rfl
  refine moves_indicator _ _ (by decide) (by decide) ?_ reached token
  rw [step_eq, item, openBlockHere_between]
  simp [between, dropCandidate, allowKey, single, goTo, emit, Nest.emit, bind, Except.bind]
  rfl

/-- The question mark in front of a key. -/
theorem moves_question (read : Text) (reached : n.margin ≤ columnAfter 0 read + 1)
    (token : BeginsToken rest) :
    Moves (between read (63 :: 32 :: rest) n true none) (between (read ++ [63, 32]) rest
      ((n.opened .blockMapping (columnAfter 0 read)).emit .key) true none) := by
  have noStart : (Cursor.behind read (63 :: 32 :: rest)).atMark 45 = false :=
    atMark_of_ne (by decide)
  have noEnd : (Cursor.behind read (63 :: 32 :: rest)).atMark 46 = false :=
    atMark_of_ne (by decide)
  have step_eq : (between read (63 :: 32 :: rest) n true none).step =
      (between read (63 :: 32 :: rest) n true none).key := by
    unfold step
    simp only [between, noStart, noEnd]
    rfl
  refine moves_indicator _ _ (by decide) (by decide) ?_ reached token
  rw [step_eq, key, openBlockHere_between]
  simp [between, dropCandidate, allowKey, single, goTo, emit, Nest.emit, bind, Except.bind]
  rfl

/-- The colon in front of a value on a line of its own. -/
theorem moves_colon (read : Text) (reached : n.margin ≤ columnAfter 0 read + 1)
    (token : BeginsToken rest) :
    Moves (between read (58 :: 32 :: rest) n true none) (between (read ++ [58, 32]) rest
      ((n.opened .blockMapping (columnAfter 0 read)).emit .value) true none) := by
  have noStart : (Cursor.behind read (58 :: 32 :: rest)).atMark 45 = false :=
    atMark_of_ne (by decide)
  have noEnd : (Cursor.behind read (58 :: 32 :: rest)).atMark 46 = false :=
    atMark_of_ne (by decide)
  have step_eq : (between read (58 :: 32 :: rest) n true none).step =
      (between read (58 :: 32 :: rest) n true none).value := by
    unfold step
    simp only [between, noStart, noEnd]
    rfl
  refine moves_indicator _ _ (by decide) (by decide) ?_ reached token
  have value_eq : (between read (58 :: 32 :: rest) n true none).value = (do
      let s ← (between read (58 :: 32 :: rest) n true none).openBlockHere .blockMapping
      return (s.allowKey !s.inFlow).single .value) := rfl
  rw [step_eq, value_eq, openBlockHere_between]
  simp [between, allowKey, single, goTo, emit, Nest.emit, bind, Except.bind]
  rfl

end Indicators

/-! ## Scalars without quotes -/

section Plain

/-- What follows a word does not go on with it. -/
theorem endsWord_head (ends : EndsWord rest) {x : CodePoint} (head : rest.head? = some x) :
    isSeparator x = true ∨ x = 58 := by
  obtain ⟨y, more, rfl⟩ : ∃ y more, rest = y :: more := by
    cases rest with
    | nil => cases head
    | cons y more => exact ⟨y, more, rfl⟩
  obtain rfl := Option.some.inj head
  exact ends.imp id fun colon => Option.some.inj colon.1

/-- Characters without quotes begin with a word of the text that they stand for. -/
theorem exists_firstWord (shows : Unquoted column w t) (ends : EndsWord rest) :
    ∃ u tail more, PlainWord u ∧ EndsWord tail ∧ w ++ rest = u ++ tail ∧ t = u ++ more ∧
      isSeparator (more.headD 0) = true := by
  cases shows with
  | @word u first => exact ⟨w, rest, [], first, ends, rfl, (List.append_nil w).symm, rfl⟩
  | @spaces u w t k first shows =>
    exact ⟨u, _, _, first, endsWord_spaces k (w ++ rest), by simp, rfl, rfl⟩
  | @fold u w t first shows =>
    exact ⟨u, _, _, first, endsWord_newLine column (w ++ rest), by simp, rfl, rfl⟩

/-- No line of three hyphens or points begins with a text that may begin without quotes. -/
theorem atMark_plain {mark : CodePoint} (solid : isSeparator mark = false) (noColon : mark ≠ 58)
    {u tail more : Text} (ends : EndsWord tail)
    (free : Text.startsWith (u ++ more) [mark, mark, mark] = false) :
    (Cursor.behind read (u ++ tail)).atMark mark = false := by
  have stops : tail.head? ≠ some mark := fun head => by
    rcases endsWord_head ends head with separates | colon
    · rw [solid] at separates
      cases separates
    · exact noColon colon
  have taken : ((u ++ tail).take 3 == [mark, mark, mark]) = false := by
    refine beq_eq_false_iff_ne.mpr fun same => ?_
    rcases u with _ | ⟨a, _ | ⟨b, _ | ⟨c, u⟩⟩⟩
    · cases tail <;> simp_all
    · cases tail <;> simp_all
    · cases tail <;> simp_all
    · obtain ⟨rfl, rfl, rfl⟩ : a = mark ∧ b = mark ∧ c = mark := by simpa using same
      simp [Text.startsWith] at free
  simp [Cursor.atMark, taken]

theorem getD_one (x : CodePoint) (rest : Text) : (x :: rest).getD 1 0 = rest.headD 0 := by
  cases rest <;> rfl

/-- What may begin without quotes is read so. -/
theorem step_plain (begins : BeginsPlain t) (shows : Unquoted column w t) (ends : EndsWord rest) :
    (between read (w ++ rest) n allowed none).step =
      (between read (w ++ rest) n allowed none).plain := by
  obtain ⟨u, tail, more, first, ends', same, rfl, separates⟩ := exists_firstWord shows ends
  have noStart : (Cursor.behind read (u ++ tail)).atMark 45 = false :=
    atMark_plain (by decide) (by decide) ends' begins.hyphens
  have noEnd : (Cursor.behind read (u ++ tail)).atMark 46 = false :=
    atMark_plain (by decide) (by decide) ends' begins.points
  obtain ⟨x, v, rfl, ink, noComment⟩ := first.exists_cons
  have leads := begins.free x (v ++ more) rfl
  -- The characters that begin structure by themselves, and those that do in front of a separator.
  have others : x ∉ text "#,[]\x7b\x7d&*!|>'\"%@`" := fun member => by
    simp [Features.leadsStructure, member] at leads
  have listed : text "#,[]\x7b\x7d&*!|>'\"%@`" =
      [35, 44, 91, 93, 123, 125, 38, 42, 33, 124, 62, 39, 34, 37, 64, 96] := by decide
  simp only [listed, List.mem_cons, not_or, List.not_mem_nil, not_false_eq_true] at others
  have separated : isSeparator ((v ++ tail).headD 0) = true → x ≠ 63 ∧ x ≠ 58 ∧ x ≠ 45 := by
    cases v with
    | nil => simp_all [Features.leadsStructure]
    | cons y v =>
      have solid : isSeparator y = false := first.solid y (by simp)
      simp [solid]
  have starts : Lexeme.startsPlain false (.behind read (x :: v ++ tail)) = true := by
    have listed' : text "-?:,[]\x7b\x7d#&*!|>'\"%@`" =
        [45, 63, 58, 44, 91, 93, 123, 125, 35, 38, 42, 33, 124, 62, 39, 34, 37, 64, 96] := by decide
    simp only [Lexeme.startsPlain, Cursor.peek, Cursor.peekAt_behind, List.cons_append,
      List.getD_cons_zero, getD_one, ink, listed']
    cases sep : isSeparator ((v ++ tail).headD 0) with
    | true => simp [separated sep, others]
    | false =>
      simp only [List.contains_cons, List.contains_nil]
      grind
  rw [same]
  have peek : (Cursor.behind read (x :: v ++ tail)).peek = x := rfl
  have next : (Cursor.behind read (x :: v ++ tail)).peekAt 1 = (v ++ tail).headD 0 :=
    getD_one x (v ++ tail)
  have outside : (between read (x :: v ++ tail) n allowed none).inFlow = false := rfl
  have cursor : (between read (x :: v ++ tail) n allowed none).cursor =
    .behind read (x :: v ++ tail) := rfl
  unfold step
  rw [cursor, outside]
  simp only [peek, next, noStart, noEnd, starts]
  cases sep : isSeparator ((v ++ tail).headD 0) with
  | true => simp [others, separated sep]
  | false => simp [others]

end Plain

/-! ## Scalars -/

section Scalars

/-- What could be a key here, if one may begin. -/
def proposal (read : Text) (n : Nest) (allowed : Bool) : Option Candidate :=
  if allowed then
    some ⟨n.found.length, n.margin == columnAfter 0 read + 1, read.length, linesOf read,
      columnAfter 0 read⟩
  else none

theorem proposeKey_between : (between read rest n allowed none).proposeKey =
    .ok (between read rest n allowed (proposal read n allowed)) := by
  cases allowed <;> rfl

theorem lexeme_between {reads : Cursor → Except Problem (Token × Cursor)} {tok : Token}
    {read' rest' : Text} (found : reads (.behind read rest) = .ok (tok, .behind read' rest')) :
    (between read rest n allowed none).lexeme reads =
      .ok (between read' rest' (n.emit tok) false (proposal read n allowed)) := by
  have found' : reads (between read rest n allowed (proposal read n allowed)).cursor =
    .ok (tok, .behind read' rest') := found
  simp only [lexeme, proposeKey_between, bind, Except.bind, found']
  rfl

theorem plain_between {read' rest' : Text} {broke : Bool}
    (found : Lexeme.plain false n.margin (.behind read rest) = ⟨t, .behind read' rest', broke⟩) :
    (between read rest n allowed none).plain =
      .ok (between read' rest' (n.emit (.scalar true t)) broke (proposal read n allowed)) := by
  have found' : Lexeme.plain (between read rest n allowed (proposal read n allowed)).inFlow
      (between read rest n allowed (proposal read n allowed)).margin
      (between read rest n allowed (proposal read n allowed)).cursor =
    ⟨t, .behind read' rest', broke⟩ := found
  simp only [plain, proposeKey_between, bind, Except.bind, found']
  rfl

theorem step_quoted {q : CodePoint} (quote : q = 39 ∨ q = 34) {read' rest' : Text}
    (found : Lexeme.quoted q (.behind read (q :: rest)) = .ok (t, .behind read' rest')) :
    (between read (q :: rest) n allowed none).step =
      .ok (between read' rest' (n.emit (.scalar false t)) false (proposal read n allowed)) := by
  have noStart : (Cursor.behind read (q :: rest)).atMark 45 = false :=
    atMark_of_ne (by rcases quote with rfl | rfl <;> decide)
  have noEnd : (Cursor.behind read (q :: rest)).atMark 46 = false :=
    atMark_of_ne (by rcases quote with rfl | rfl <;> decide)
  have step_eq : (between read (q :: rest) n allowed none).step =
      (between read (q :: rest) n allowed none).lexeme fun c =>
        Lexeme.quoted q c >>= fun (found : Text × Cursor) =>
          .ok (.scalar false found.1, found.2) := by
    unfold step
    simp only [between, noStart, noEnd]
    rcases quote with rfl | rfl <;> rfl
  rw [step_eq]
  refine lexeme_between ?_
  simp only [found, bind, Except.bind]

/-- A line ends what could have been a key inside a block. -/
theorem passed_proposal (read : Text) (n : Nest) (allowed : Bool)
    (inner : n.margin ≤ columnAfter 0 read) (w : Text) (next : Nat) :
    Passed (linesOf (read ++ w ++ newLine next)) (proposal read n allowed) := by
  intro c member
  unfold proposal at member
  split at member
  · obtain rfl := Option.some.inj member
    refine ⟨?_, ?_⟩
    · simp only [beq_eq_false_iff_ne]
      omega
    · simp only [linesOf_append, linesOf_newLine]
      omega
  · cases member

/-- A scalar up to a line on which the block around it goes on or ends. -/
theorem moves_scalar (read : Text) (allowed : Bool) {c next : Nat} {plain : Bool}
    (shows : Spells (c + 2) w plain t)
    (block : n.margin = c + 1) (inner : c < columnAfter 0 read) (outer : next ≤ c)
    (token : BeginsToken rest) :
    Moves (between read (w ++ (newLine next ++ rest)) n allowed none)
      (between (read ++ w ++ newLine next) rest ((n.emit (.scalar plain t)).closed next) true
        none) where
  goesOn := by
    obtain ⟨x, v, rfl, solid, -⟩ := shows.beginsInk
    have some : x ≠ 0 := by
      rintro rfl
      cases solid
    simpa [between, Cursor.atEnd] using some
  shorter := by
    simp only [between, Cursor.rest_behind, newLine, List.length_append, List.length_cons]
    omega
  steps := by
    have passed (v : Text) : Passed (linesOf (read ++ v ++ newLine next))
        (proposal read n allowed) := passed_proposal read n allowed (by omega) v next
    -- Behind quotes the line break is passed when the scan settles.
    have quoted {q : CodePoint} {v : Text} (quote : q = 39 ∨ q = 34)
        (found : Lexeme.quoted q (.behind read (q :: v ++ q :: (newLine next ++ rest))) =
          .ok (t, .behind (read ++ (q :: v ++ [q])) (newLine next ++ rest))) :
        ∃ u, (between read (q :: v ++ [q] ++ (newLine next ++ rest)) n allowed none).step = .ok u ∧
          u.settle = .ok (between (read ++ (q :: v ++ [q]) ++ newLine next) rest
            ((n.emit (.scalar false t)).closed next) true none) := by
      rw [List.append_assoc, List.singleton_append]
      exact ⟨_, step_quoted quote found, settle_newLine _ _ _ next token (passed _)⟩
    cases shows with
    | unquoted begins shows =>
      have found := shows.plain_of_newLine n.margin read next
        (by omega) (by omega) (by omega) (by omega) token.solid
      refine ⟨_, (step_plain begins shows (endsWord_newLine next rest)).trans
        (plain_between found), ?_⟩
      have settled := settle_stale _ (n.emit (.scalar true t)) true token (passed w)
      rwa [columnAfter_append, columnAfter_newLine] at settled
    | singleQuoted shows =>
      exact quoted (.inl rfl) (shows.quoted_eq (Nat.succ_pos _) read _ (by simp [newLine]))
    | doubleQuoted shows => exact quoted (.inr rfl) (shows.quoted_eq (Nat.succ_pos _) read _)

end Scalars

/-! ## Keys in front of a colon -/

section Keys

/-- The column of a line only grows. -/
theorem le_columnAfter (lines : ∀ x ∈ w, isBreak x = false) (column : Nat) :
    column ≤ columnAfter column w := by
  induction w generalizing column with
  | nil => exact Nat.le_refl column
  | cons x w ih =>
    have noBreak := lines x List.mem_cons_self
    have later := fun c => ih (fun y member => lines y (List.mem_cons_of_mem x member)) c
    have step : columnAfter column (x :: w) =
        columnAfter (if x = 0xFEFF then column else column + 1) w := by
      simp [columnAfter, noBreak]
    rw [step]
    refine Nat.le_trans ?_ (later _)
    split
    · exact Nat.le_refl column
    · exact Nat.le_succ column

/-- A colon behind what could be a key makes it one. -/
theorem step_value (s : Token) (needed : Bool) (i l column : Nat)
    (separated : isSeparator (rest.headD 0) = true) :
    (between read (58 :: rest) (n.emit s) false
        (some ⟨n.found.length, needed, i, l, column⟩)).step =
      .ok (between (read ++ [58]) rest
        ((n.opened .blockMapping column).emitAll [.key, s, .value]) false none) := by
  have noStart : (Cursor.behind read (58 :: rest)).atMark 45 = false := atMark_of_ne (by decide)
  have noEnd : (Cursor.behind read (58 :: rest)).atMark 46 = false := atMark_of_ne (by decide)
  have next : (Cursor.behind read (58 :: rest)).peekAt 1 = rest.headD 0 := getD_one 58 rest
  have step_eq : (between read (58 :: rest) (n.emit s) false
        (some ⟨n.found.length, needed, i, l, column⟩)).step =
      (between read (58 :: rest) (n.emit s) false
        (some ⟨n.found.length, needed, i, l, column⟩)).value := by
    unfold step
    simp only [between, noStart, noEnd, next, separated]
    rfl
  have behind (k : Nat) : n.found.length + 1 + k - n.found.length = k + 1 := by omega
  rw [step_eq]
  by_cases inside : n.margin ≤ column
  · have opens : ∀ s : Scan, s.blocks = n.blocks → s.margin ≤ column := fun s same => by
      rw [margin, same]
      exact inside
    simp [value, insertAt, openBlock, opens, between, inFlow, Nest.emit, behind, Nest.opened,
      inside, Nest.emitAll, single, goTo, emit, allowKey]
  · have stays : ∀ s : Scan, s.blocks = n.blocks → ¬s.margin ≤ column := fun s same => by
      rw [margin, same]
      exact inside
    simp [value, insertAt, openBlock, stays, between, inFlow, Nest.emit, Nest.opened,
      inside, Nest.emitAll, single, goTo, emit, allowKey]

/-- What stands in front of a colon on one line. -/
structure InLine (name : Text) : Prop where
  lines : ∀ x ∈ name, isBreak x = false
  fits : name.length ≤ longestCandidate

theorem step_name {name key : Text} {plain : Bool}
    (shows : Spells (columnAfter 0 read + 2) name plain key)
    (reached : n.margin ≤ columnAfter 0 read + 1) (separated : isSeparator (rest.headD 0) = true) :
    (between read (name ++ 58 :: rest) n true none).step =
      .ok (between (read ++ name) (58 :: rest) (n.emit (.scalar plain key)) false
        (proposal read n true)) := by
  cases shows with
  | unquoted begins shows =>
    have ends : EndsWord (58 :: rest) := .inr ⟨rfl, separated⟩
    have found := shows.plain_of_colon n.margin read (Nat.succ_pos _) (by omega)
      (by omega) separated
    exact (step_plain begins shows ends).trans (plain_between found)
  | @singleQuoted w t shows =>
    have found := shows.quoted_eq (Nat.succ_pos _) read (58 :: rest) (by simp)
    rw [List.append_assoc, List.singleton_append]
    exact step_quoted (.inl rfl) found
  | @doubleQuoted w t shows =>
    have found := shows.quoted_eq (Nat.succ_pos _) read (58 :: rest)
    rw [List.append_assoc, List.singleton_append]
    exact step_quoted (.inr rfl) found

/-- A key in front of a colon, and the gap behind the colon. -/
theorem moves_key {name key gap : Text} {plain after : Bool}
    (shows : Spells (columnAfter 0 read + 2) name plain key) (inLine : InLine name)
    (reached : n.margin ≤ columnAfter 0 read + 1)
    (separated : isSeparator ((gap ++ rest).headD 0) = true)
    (settled : ∀ m : Nest, m.margin = columnAfter 0 read + 1 →
      (between (read ++ name ++ [58]) (gap ++ rest) m false none).settle =
        .ok (between (read ++ name ++ [58] ++ gap) rest m after none)) :
    Relation.TransGen Moves (between read (name ++ 58 :: (gap ++ rest)) n true none)
      (between (read ++ name ++ [58] ++ gap) rest
        ((n.opened .blockMapping (columnAfter 0 read)).emitAll [.key, .scalar plain key, .value])
        after none) := by
  have fresh : isStale (.behind (read ++ name) (58 :: (gap ++ rest)))
      ⟨n.found.length, n.margin == columnAfter 0 read + 1, read.length, linesOf read,
        columnAfter 0 read⟩ = false := by
    have line : linesOf (read ++ name) = linesOf read := by
      rw [linesOf_append, linesOf_eq_zero inLine.lines, Nat.add_zero]
    simp [isStale, line, inLine.fits]
  have token : BeginsToken (58 :: (gap ++ rest)) := beginsToken_cons _ (by decide)
  have stays : (n.emit (.scalar plain key)).closed (columnAfter 0 (read ++ name)) =
      n.emit (.scalar plain key) := by
    refine Nest.closed_of_margin_le (Nat.le_trans reached (Nat.succ_le_succ ?_))
    rw [columnAfter_append]
    exact le_columnAfter inLine.lines _
  have named : Moves (between read (name ++ 58 :: (gap ++ rest)) n true none)
      (between (read ++ name) (58 :: (gap ++ rest)) (n.emit (.scalar plain key)) false
        (proposal read n true)) := by
    obtain ⟨x, v, rfl, solid, -⟩ := shows.beginsInk
    refine ⟨?_, ?_, _, step_name shows reached separated, ?_⟩
    · have some : x ≠ 0 := by
        rintro rfl
        cases solid
      simpa [between, Cursor.atEnd] using some
    · simp only [between, Cursor.rest_behind, List.length_append, List.length_cons]
      omega
    · have settled := settle_fresh (n.emit (.scalar plain key)) false token fresh
      rwa [stays] at settled
  refine .tail (.single named) ⟨rfl, ?_, _, step_value _ _ _ _ _ separated, settled _ ?_⟩
  · simp only [between, Cursor.rest_behind, List.length_append, List.length_cons]
    omega
  · exact Nest.margin_opened .blockMapping reached

theorem columnAfter_colon (read : Text) (lines : ∀ x ∈ w, isBreak x = false) :
    columnAfter 0 read + 1 ≤ columnAfter 0 (read ++ w ++ [58]) := by
  have colon : columnAfter (columnAfter (columnAfter 0 read) w) [58] =
      columnAfter (columnAfter 0 read) w + 1 := rfl
  have grown := le_columnAfter lines (columnAfter 0 read)
  rw [columnAfter_append, columnAfter_append, colon]
  omega

/-- A key with its value on the same line. -/
theorem moves_key_space {name key : Text} {plain : Bool}
    (shows : Spells (columnAfter 0 read + 2) name plain key) (inLine : InLine name)
    (reached : n.margin ≤ columnAfter 0 read + 1) (token : BeginsToken rest) :
    Relation.TransGen Moves (between read (name ++ 58 :: ([32] ++ rest)) n true none)
      (between (read ++ name ++ [58] ++ [32]) rest
        ((n.opened .blockMapping (columnAfter 0 read)).emitAll [.key, .scalar plain key, .value])
        false none) := by
  refine moves_key shows inLine reached rfl fun m margin => ?_
  have settled := settle_spaces (read ++ name ++ [58]) m false 1 token
  have stays : m.closed (columnAfter 0 (read ++ name ++ [58]) + 1) = m := by
    have further := columnAfter_colon read inLine.lines
    exact Nest.closed_of_margin_le (by omega)
  rwa [stays] at settled

/-- A key with its value on the next line. -/
theorem moves_key_newLine {name key : Text} {plain : Bool} {next : Nat}
    (shows : Spells (columnAfter 0 read + 2) name plain key) (inLine : InLine name)
    (reached : n.margin ≤ columnAfter 0 read + 1) (inside : columnAfter 0 read ≤ next)
    (token : BeginsToken rest) :
    Relation.TransGen Moves (between read (name ++ 58 :: (newLine next ++ rest)) n true none)
      (between (read ++ name ++ [58] ++ newLine next) rest
        ((n.opened .blockMapping (columnAfter 0 read)).emitAll [.key, .scalar plain key, .value])
        true none) := by
  refine moves_key shows inLine reached rfl fun m margin => ?_
  have settled := settle_newLine (read ++ name ++ [58]) m false next token
    (k := none) nofun
  have stays : m.closed next = m := Nest.closed_of_margin_le (by omega)
  rwa [stays] at settled

end Keys

/-! ## Empty pairs of brackets -/

section Brackets

/-- The characters and tokens of an empty collection between brackets. -/
inductive Pair : (left right : CodePoint) → (opening closing : Token) → Prop
  | sequence : Pair 91 93 .flowSequence .flowSequenceEnd
  | mapping : Pair 123 125 .flowMapping .flowMappingEnd

/-- A scan inside a pair of brackets. -/
def inBrackets (read rest : Text) (n : Nest) (k : Option Candidate) : Scan :=
  ⟨.behind read rest, n.found, n.found.length, n.blocks, true, none, [k]⟩

variable {left right : CodePoint} {opening closing : Token}

theorem step_left (pair : Pair left right opening closing) :
    (between read (left :: rest) n allowed none).step =
      .ok (inBrackets (read ++ [left]) rest (n.emit opening) (proposal read n allowed)) := by
  have noStart : (Cursor.behind read (left :: rest)).atMark 45 = false :=
    atMark_of_ne (by cases pair <;> decide)
  have noEnd : (Cursor.behind read (left :: rest)).atMark 46 = false :=
    atMark_of_ne (by cases pair <;> decide)
  have step_eq : (between read (left :: rest) n allowed none).step =
      (between read (left :: rest) n allowed none).openFlow opening := by
    unfold step
    simp only [between, noStart, noEnd]
    cases pair <;> rfl
  rw [step_eq, openFlow, proposeKey_between]
  simp [between, inBrackets, bind, Except.bind, pure, Except.pure, allowKey, single, goTo, emit,
    Nest.emit]

theorem step_right (pair : Pair left right opening closing) {k : Option Candidate} :
    (inBrackets read (right :: rest) n k).step =
      .ok (between (read ++ [right]) rest (n.emit closing) false k) := by
  have noStart : (Cursor.behind read (right :: rest)).atMark 45 = false :=
    atMark_of_ne (by cases pair <;> decide)
  have noEnd : (Cursor.behind read (right :: rest)).atMark 46 = false :=
    atMark_of_ne (by cases pair <;> decide)
  have step_eq : (inBrackets read (right :: rest) n k).step =
      (inBrackets read (right :: rest) n k).closeFlow closing := by
    unfold step
    simp only [inBrackets, noStart, noEnd]
    cases pair <;> rfl
  rw [step_eq]
  simp [closeFlow, dropCandidate, between, inBrackets, bind, Except.bind, pure, Except.pure,
    allowKey, single, goTo, emit, Nest.emit]

/-- What could be a key still can be one behind a bracket. -/
theorem settle_inBrackets (pair : Pair left right opening closing) (m : Nest) :
    (inBrackets (read ++ [left]) (right :: rest) m (proposal read n allowed)).settle =
      .ok (inBrackets (read ++ [left]) (right :: rest) m (proposal read n allowed)) := by
  have ink : isSeparator right = false ∧ right ≠ 35 ∧ right ≠ 0xFEFF := by cases pair <;> decide
  have token : BeginsToken (right :: rest) := beginsToken_cons rest ink
  have noSpace : (Cursor.behind (read ++ [left]) (right :: rest)).skipSpaces =
      .behind (read ++ [left]) (right :: rest) :=
    Cursor.skip_behind_stop fun x head => (Lexeme.isSpace_of_solid (token.solid x head)).1
  have noBreak : (Cursor.behind (read ++ [left]) (right :: rest)).lineBreak? = none :=
    Cursor.lineBreak?_eq_none _ fun x head => (Lexeme.isSpace_of_solid (token.solid x head)).2
  have passes (k : Nat) : passBlanks (k + 1)
      (inBrackets (read ++ [left]) (right :: rest) m (proposal read n allowed)) =
      inBrackets (read ++ [left]) (right :: rest) m (proposal read n allowed) := by
    simp only [passBlanks, inBrackets, noSpace, skipComment_behind token.noComment, noBreak, goTo]
  have line : linesOf (read ++ [left]) = linesOf read := by
    have none : linesOf [left] = 0 := by cases pair <;> rfl
    rw [linesOf_append, none, Nat.add_zero]
  have fresh : ∀ k ∈ proposal read n allowed,
      isStale (.behind (read ++ [left]) (right :: rest)) k = false := by
    intro k member
    unfold proposal at member
    split at member
    · obtain rfl := Option.some.inj member
      simp [isStale, line, longestCandidate]
    · cases member
  have drops : (inBrackets (read ++ [left]) (right :: rest) m (proposal read n allowed)).dropStale =
      .ok (inBrackets (read ++ [left]) (right :: rest) m (proposal read n allowed)) := by
    cases k : proposal read n allowed with
    | none => rfl
    | some c =>
      have fresh := fresh c k
      simp [dropStale, inBrackets, fresh]
  have noMark : ((inBrackets (read ++ [left]) (right :: rest) m
      (proposal read n allowed)).cursor.index = 0 &&
      (inBrackets (read ++ [left]) (right :: rest) m (proposal read n allowed)).cursor.peek =
        0xFEFF) = false := by
    simp [inBrackets]
  unfold settle
  simp only [noMark, Bool.false_eq_true, if_false, passes, drops, bind, Except.bind, pure,
    Except.pure]
  rfl

/-- An empty collection up to a line on which the block around it goes on or ends. -/
theorem moves_brackets {c next : Nat} (pair : Pair left right opening closing)
    (block : n.margin = c + 1) (inner : c < columnAfter 0 read) (token : BeginsToken rest) :
    Relation.TransGen Moves
      (between read (left :: right :: (newLine next ++ rest)) n allowed none)
      (between (read ++ [left, right] ++ newLine next) rest
        ((n.emitAll [opening, closing]).closed next) true none) := by
  have opens : Moves (between read (left :: right :: (newLine next ++ rest)) n allowed none)
      (inBrackets (read ++ [left]) (right :: (newLine next ++ rest)) (n.emit opening)
        (proposal read n allowed)) := by
    refine ⟨by cases pair <;> rfl, ?_, _, step_left pair,
      settle_inBrackets pair _⟩
    simp [between, inBrackets]
  refine .tail (.single opens) ⟨by cases pair <;> rfl, ?_, _, step_right pair, ?_⟩
  · simp only [between, inBrackets, Cursor.rest_behind, List.length_append, List.length_cons]
    omega
  · have passed : Passed (linesOf (read ++ [left] ++ [right] ++ newLine next))
        (proposal read n allowed) := by
      have passed := passed_proposal read n allowed (by omega) ([left] ++ [right]) next
      simpa using passed
    have settled := settle_newLine _ ((n.emit opening).emit closing) false next token
      passed
    have both : (n.emit opening).emit closing = n.emitAll [opening, closing] := rfl
    rw [both] at settled ⊢
    simpa using settled

end Brackets

end Scan

end SwaggerDoc.Yaml
