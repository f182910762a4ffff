import SwaggerDoc.Proofs.Yaml.Steps

/-!
The tokens of written data.

A scan over data that are laid out in a block finds the tokens of the data, in order, and the blocks
that begin with them end on the line where the block around them goes on (`moves_of_laid`).
-/

namespace SwaggerDoc

open Yaml

/-- The tokens of a key and of the colon behind it. -/
def keyTokens (key : Text) : List Token :=
  [.key, .scalar (keyStyle key == .plain) key, .value]

mutual

/-- The tokens of data. A list behind a key shares the column of the key and begins no block. -/
def Data.tokens (behindKey : Bool) : Data → List Token
  | .atom a => [.scalar a.isPlain a.characters]
  | .list items =>
    if items.isEmpty then [.flowSequence, .flowSequenceEnd]
    else if behindKey then itemTokens items
    else .blockSequence :: (itemTokens items ++ [.blockEnd])
  | .map entries =>
    if entries.isEmpty then [.flowMapping, .flowMappingEnd]
    else .blockMapping :: (entryTokens entries ++ [.blockEnd])

/-- The tokens of items. -/
def itemTokens : List Data → List Token
  | [] => []
  | d :: rest => .item :: (d.tokens false ++ itemTokens rest)

/-- The tokens of entries. -/
def entryTokens : List (Text × Data) → List Token
  | [] => []
  | (key, d) :: rest =>
    keyTokens key ++ (d.tokens (isSimple key) ++ entryTokens rest)

end

namespace Yaml

section Begins

variable {column : Nat} {w : Text}

theorem laidAll_cons {d : Data} {items : List Data}
    (laid : LaidAll column (d :: items) (newLine column ++ w)) :
    ∃ first more, w = 45 :: 32 :: (first ++ more) ∧ Laid column false d first ∧
      LaidAll column items more := by
  obtain ⟨first, more, same, laid, laid'⟩ := laid
  exact ⟨first, more, List.append_cancel_left same, laid, laid'⟩

theorem laidEntries_cons {key : Text} {d : Data} {entries : List (Text × Data)}
    (laid : LaidEntries column ((key, d) :: entries) (newLine column ++ w)) :
    ∃ name first more, w = name ++ (lead column (isSimple key) d ++ (first ++ more)) ∧
      LaidKey column key name ∧ Laid column (isSimple key) d first ∧
      LaidEntries column entries more := by
  obtain ⟨name, first, more, same, rest⟩ := laid
  exact ⟨name, first, more, List.append_cancel_left same, rest⟩

theorem LaidKey.beginsInk {key name : Text} (laid : LaidKey column key name) : BeginsInk name := by
  obtain ⟨name, shows, ⟨-, -, rfl⟩ | ⟨-, rfl⟩⟩ := laid
  · exact shows.beginsInk.append _
  · exact ⟨63, _, rfl, by decide⟩

/-- Each item begins on a line of its own. -/
theorem LaidAll.exists_line {items : List Data} (some : items ≠ [])
    (laid : LaidAll column items w) : ∃ v, w = newLine column ++ v ∧ BeginsInk v := by
  obtain ⟨d, items, rfl⟩ := List.exists_cons_of_ne_nil some
  obtain ⟨first, more, rfl, -⟩ := laid
  exact ⟨_, rfl, 45, _, rfl, by decide⟩

/-- Each entry begins on a line of its own. -/
theorem LaidEntries.exists_line {entries : List (Text × Data)} (some : entries ≠ [])
    (laid : LaidEntries column entries w) : ∃ v, w = newLine column ++ v ∧ BeginsInk v := by
  obtain ⟨⟨key, d⟩, entries, rfl⟩ := List.exists_cons_of_ne_nil some
  obtain ⟨name, first, more, rfl, laidKey, -⟩ := laid
  exact ⟨_, rfl, laidKey.beginsInk.append _⟩

theorem Laid.beginsInk {behindKey : Bool} {d : Data} (laid : Laid column behindKey d w) :
    BeginsInk w := by
  cases d with
  | atom a => exact Spells.beginsInk laid
  | list items =>
    rcases laid with ⟨-, rfl⟩ | ⟨some, laid⟩
    · exact ⟨91, _, rfl, by decide⟩
    · obtain ⟨v, same, begins⟩ := laid.exists_line some
      exact List.append_cancel_left same ▸ begins
  | map entries =>
    rcases laid with ⟨-, rfl⟩ | ⟨some, laid⟩
    · exact ⟨123, _, rfl, by decide⟩
    · obtain ⟨v, same, begins⟩ := laid.exists_line some
      exact List.append_cancel_left same ▸ begins

end Begins

/-! ## Where data begin -/

/-- A scan has come to where data begin: to their column, if they have lines of their own, and
inside the block around them otherwise. -/
def Reached (column : Nat) (behindKey : Bool) (read : Text) (allowed : Bool) : Data → Prop
  | .atom _ => column < columnAfter 0 read
  | .list items =>
    (items = [] → column < columnAfter 0 read) ∧
      (items ≠ [] → columnAfter 0 read = listColumn column behindKey ∧ allowed = true)
  | .map entries =>
    (entries = [] → column < columnAfter 0 read) ∧
      (entries ≠ [] → columnAfter 0 read = column + 2 ∧ allowed = true)

section Reached

variable {column : Nat} {read : Text}

theorem reached_of_indicator (there : columnAfter 0 read = column + 2) (d : Data) :
    Reached column false read true d := by
  have inside : column < columnAfter 0 read := by omega
  cases d with
  | atom a => exact inside
  | list items => exact ⟨fun _ => inside, fun _ => ⟨there, rfl⟩⟩
  | map entries => exact ⟨fun _ => inside, fun _ => ⟨there, rfl⟩⟩

/-- Behind the colon of a key data begin on the same line or on one that is inside the block. -/
theorem reached_of_key (inside : column < columnAfter 0 read) (d : Data) :
    (lead column true d = [32] ∧ Reached column true (read ++ [32]) false d) ∨
      ∃ next, column ≤ next ∧ lead column true d = newLine next ∧
        Reached column true (read ++ newLine next) true d := by
  have further : column < columnAfter 0 (read ++ [32]) := by
    rw [columnAfter_append]
    exact Nat.lt_succ_of_lt inside
  have there (next : Nat) : columnAfter 0 (read ++ newLine next) = next := by
    rw [columnAfter_append, columnAfter_newLine]
  cases d with
  | atom a => exact .inl ⟨rfl, further⟩
  | list items =>
    cases items with
    | nil => exact .inl ⟨rfl, fun _ => further, fun some => absurd rfl some⟩
    | cons d items => exact .inr ⟨column, Nat.le_refl _, rfl, nofun, fun _ => ⟨there _, rfl⟩⟩
  | map entries =>
    cases entries with
    | nil => exact .inl ⟨rfl, fun _ => further, fun some => absurd rfl some⟩
    | cons entry entries =>
      exact .inr ⟨column + 2, Nat.le_add_right _ _, rfl, nofun, fun _ => ⟨there _, rfl⟩⟩

end Reached

/-! ## Keys -/

section Keys

variable {column : Nat} {key name read w : Text} {n : Nest}

theorem isBreak_basic {x : CodePoint} (range : 32 ≤ x ∧ x < 127) : isBreak x = false := by
  simp only [isBreak, Bool.or_eq_false_iff, beq_eq_false_iff_ne]
  dsimp only [CodePoint] at *
  omega

/-- A simple key stands on one line, with its quotes. -/
theorem inLine_of_simple (simple : isSimple key = true) (fits : FitsKey key) :
    Scan.InLine (oneLine (keyStyle key) key) where
  fits := fits simple
  lines := by
    have lines : ∀ x ∈ key, isBreak x = false := by
      simp only [isSimple, Drawing.isSimpleKey, Bool.and_eq_true, Bool.not_eq_true',
        List.any_eq_false] at simple
      exact fun x member => Bool.eq_false_iff.mpr (simple.1.2 x member)
    have quoted (q : CodePoint) (quote : isBreak q = false) {v : Text}
        (inner : ∀ x ∈ v, isBreak x = false) : ∀ x ∈ q :: v ++ [q], isBreak x = false := by
      simp only [List.cons_append, List.forall_mem_cons, List.forall_mem_append]
      exact ⟨quote, inner, quote, List.forall_mem_nil _⟩
    unfold oneLine
    split
    · refine quoted 39 rfl fun x member => ?_
      obtain ⟨c, source, written⟩ := List.mem_flatMap.mp member
      split at written
      · have same : x = 39 := by simpa using written
        exact same ▸ rfl
      · exact (List.mem_singleton.mp written) ▸ lines c source
    · refine quoted 34 rfl fun x member => ?_
      obtain ⟨c, source, written⟩ := List.mem_flatMap.mp member
      unfold spelled at written
      split at written
      · exact isBreak_basic (basic_escape c x written)
      · exact (List.mem_singleton.mp written) ▸ lines c source
    · exact lines

/-- A key leads to its value. -/
theorem moves_of_laidKey (laid : LaidKey column key name) (fits : FitsKey key)
    (there : columnAfter 0 read = column) (reached : n.margin ≤ column + 1) (d : Data)
    (token : BeginsToken w) :
    ∃ allowed,
      Reached column (isSimple key) (read ++ name ++ lead column (isSimple key) d) allowed d ∧
      Relation.TransGen Scan.Moves
        (Scan.between read (name ++ (lead column (isSimple key) d ++ w)) n true none)
        (Scan.between (read ++ name ++ lead column (isSimple key) d) w
          ((n.opened .blockMapping column).emitAll (keyTokens key)) allowed none) := by
  subst there
  obtain ⟨name, shows, ⟨simple, same, rfl⟩ | ⟨complex, rfl⟩⟩ := laid
  · have inLine : Scan.InLine name := same ▸ inLine_of_simple simple fits
    have inside : columnAfter 0 read < columnAfter 0 (read ++ name ++ [58]) :=
      Scan.columnAfter_colon read inLine.lines
    rw [simple]
    rcases reached_of_key inside d with ⟨space, begins⟩ | ⟨next, further, newLine, begins⟩
    · have moves := Scan.moves_key_space shows inLine reached token
      rw [space]
      exact ⟨false, by simpa using begins, by simpa [keyTokens] using moves⟩
    · have moves := Scan.moves_key_newLine shows inLine reached further token
      rw [newLine]
      exact ⟨true, by simpa using begins, by simpa [keyTokens] using moves⟩
  · have question := Scan.moves_question read (n := n) reached
      (shows.beginsInk.append (newLine (columnAfter 0 read) ++ (58 :: 32 :: w))).beginsToken
    have opened := Nest.margin_opened .blockMapping reached
    generalize n.opened .blockMapping (columnAfter 0 read) = m at question opened ⊢
    have behind : columnAfter 0 (read ++ [63, 32]) = columnAfter 0 read + 2 := by
      rw [columnAfter_append]
      rfl
    have scalar := Scan.moves_scalar (read ++ [63, 32]) true (n := m.emit .key) shows
      opened (by omega) (Nat.le_refl (columnAfter 0 read))
      (beginsToken_cons (x := 58) (32 :: w) (by decide))
    rw [Nest.closed_of_margin_le (by exact Nat.le_of_eq opened)] at scalar
    have line : columnAfter 0 (read ++ [63, 32] ++ name ++ newLine (columnAfter 0 read)) =
        columnAfter 0 read := by
      rw [columnAfter_append, columnAfter_newLine]
    have colon := Scan.moves_colon (read ++ [63, 32] ++ name ++ newLine (columnAfter 0 read))
      (n := (m.emit .key).emit (.scalar (keyStyle key == .plain) key))
      (by rw [line]; exact Nat.le_of_eq opened) token
    rw [line, Nest.opened_of_lt (by exact opened ▸ Nat.lt_succ_self _)] at colon
    have begins : Reached (columnAfter 0 read) false
        (read ++ [63, 32] ++ name ++ newLine (columnAfter 0 read) ++ [58, 32]) true d := by
      refine reached_of_indicator ?_ d
      rw [columnAfter_append, line]
      rfl
    rw [complex, lead_of_indicator]
    refine ⟨true, by simpa using begins, ?_⟩
    have moves := ((Relation.TransGen.single question).tail scalar).tail colon
    simpa [Nest.emit_eq, Nest.emitAll_append, keyTokens] using moves

end Keys

/-! ## Data -/

section Blocks

variable {n : Nest} {t : Token} {ts : List Token} {column next : Nat}

/-- A block that begins with data ends on a line in front of it. -/
theorem closed_block (inside : n.margin ≤ column) (outer : next < column) :
    ((n.opened t column).emitAll ts).closed next =
      (n.emitAll (t :: (ts ++ [.blockEnd]))).closed next := by
  rw [Nest.opened_of_le inside]
  have ended := Nest.closed_cons outer n.blocks (ts.reverse ++ t :: n.found)
  simpa [Nest.emitAll] using ended

end Blocks

mutual

/-- A scan over data finds their tokens, up to the line where the block around them goes on. -/
theorem moves_of_laid : (d : Data) → {column : Nat} → {behindKey : Bool} → {w : Text} →
    Laid column behindKey d w → LegibleIn column behindKey d → {read rest : Text} → {n : Nest} →
    {allowed : Bool} → {next : Nat} → n.margin = column + 1 →
    Reached column behindKey read allowed d → next ≤ column → BeginsToken rest →
    Relation.TransGen Scan.Moves (Scan.between read (w ++ (newLine next ++ rest)) n allowed none)
      (Scan.between (read ++ w ++ newLine next) rest ((n.emitAll (d.tokens behindKey)).closed next)
        true none)
  | .atom a, column, behindKey, w, laid, legible, read, rest, n, allowed, next, block, reached,
      outer, token => .single (Scan.moves_scalar read allowed laid block reached outer token)
  | .list items, column, behindKey, w, laid, legible, read, rest, n, allowed, next, block, reached,
      outer, token => by
    rcases laid with ⟨rfl, rfl⟩ | ⟨some, laid⟩
    · exact Scan.moves_brackets .sequence block (reached.1 rfl) token
    · obtain ⟨there, rfl⟩ := reached.2 some
      have notEmpty : items.isEmpty = false := by simpa using some
      have moves := moves_of_laidAll items some laid legible there (n := n) next
        (by unfold listColumn; split <;> omega)
        (by unfold listColumn; split <;> omega) token
      rw [Data.tokens, notEmpty]
      cases behindKey with
      | true =>
        rwa [Nest.opened_of_lt (by exact block ▸ Nat.lt_succ_self column)] at moves
      | false =>
        rwa [closed_block (by exact Nat.le_trans (Nat.le_of_eq block) (Nat.le_succ _))
          (by exact Nat.lt_of_le_of_lt outer (Nat.lt_add_of_pos_right Nat.zero_lt_two))] at moves
  | .map entries, column, behindKey, w, laid, legible, read, rest, n, allowed, next, block, reached,
      outer, token => by
    rcases laid with ⟨rfl, rfl⟩ | ⟨some, laid⟩
    · exact Scan.moves_brackets .mapping block (reached.1 rfl) token
    · obtain ⟨there, rfl⟩ := reached.2 some
      have notEmpty : entries.isEmpty = false := by simpa using some
      have moves := moves_of_laidEntries entries some laid legible there (n := n) next
        (by omega) (by omega) token
      rw [Data.tokens, notEmpty]
      rwa [closed_block (by exact Nat.le_trans (Nat.le_of_eq block) (Nat.le_succ _))
        (by exact Nat.lt_of_le_of_lt outer (Nat.lt_add_of_pos_right Nat.zero_lt_two))] at moves

theorem moves_of_laidAll : (items : List Data) → items ≠ [] → {column : Nat} → {w : Text} →
    LaidAll column items (newLine column ++ w) → AllLegible column items → {read rest : Text} →
    columnAfter 0 read = column → {n : Nest} → (next : Nat) → n.margin ≤ column + 1 →
    next ≤ column → BeginsToken rest →
    Relation.TransGen Scan.Moves (Scan.between read (w ++ (newLine next ++ rest)) n true none)
      (Scan.between (read ++ w ++ newLine next) rest
        (((n.opened .blockSequence column).emitAll (itemTokens items)).closed next) true none)
  | [], nonempty, _, _, _, _, _, _, _, _, _, _, _, _ => absurd rfl nonempty
  | d :: items, _, column, w, laid, legible, read, rest, there, n, next, reached, outer, token => by
    obtain ⟨first, more, rfl, laidFirst, laidMore⟩ := laidAll_cons laid
    subst there
    have opened := Nest.margin_opened .blockSequence reached
    have hyphen := Scan.moves_item reached
      ((laidFirst.beginsInk.append more).append (newLine next ++ rest)).beginsToken
    generalize n.opened .blockSequence (columnAfter 0 read) = m at hyphen opened ⊢
    have behind : columnAfter 0 (read ++ [45, 32]) = columnAfter 0 read + 2 := by
      rw [columnAfter_append]
      rfl
    have begins := reached_of_indicator behind d
    by_cases last : items = []
    · subst last
      obtain rfl := laidMore
      have moves :=
        moves_of_laid d laidFirst legible.1 (n := m.emit .item) opened begins outer token
      simp only [List.append_nil] at hyphen
      simpa [Nest.emit_eq, Nest.emitAll_append, itemTokens] using
        (Relation.TransGen.single hyphen).trans moves
    · obtain ⟨v, rfl, later⟩ := laidMore.exists_line last
      have moves := moves_of_laid d laidFirst legible.1 (n := m.emit .item) opened begins
        (Nat.le_refl _) (later.append (newLine next ++ rest)).beginsToken
      rw [Nest.closed_of_margin_le (by exact Nat.le_of_eq opened)] at moves
      have there : columnAfter 0 (read ++ [45, 32] ++ first ++ newLine (columnAfter 0 read)) =
          columnAfter 0 read := by
        rw [columnAfter_append, columnAfter_newLine]
      have moves' := moves_of_laidAll items last laidMore legible.2 there
        (n := (m.emit .item).emitAll (d.tokens false)) next (Nat.le_of_eq opened) outer token
      rw [Nest.opened_of_lt (by exact opened ▸ Nat.lt_succ_self _)] at moves'
      simp only [List.append_assoc] at hyphen moves
      simpa [Nest.emit_eq, Nest.emitAll_append, itemTokens] using
        (Relation.TransGen.single hyphen).trans
          (moves.trans (by simpa [Nest.emit_eq, Nest.emitAll_append] using moves'))

theorem moves_of_laidEntries : (entries : List (Text × Data)) → entries ≠ [] → {column : Nat} →
    {w : Text} → LaidEntries column entries (newLine column ++ w) → EntriesLegible column entries →
    {read rest : Text} → columnAfter 0 read = column → {n : Nest} → (next : Nat) →
    n.margin ≤ column + 1 → next ≤ column → BeginsToken rest →
    Relation.TransGen Scan.Moves (Scan.between read (w ++ (newLine next ++ rest)) n true none)
      (Scan.between (read ++ w ++ newLine next) rest
        (((n.opened .blockMapping column).emitAll (entryTokens entries)).closed next) true none)
  | [], nonempty, _, _, _, _, _, _, _, _, _, _, _, _ => absurd rfl nonempty
  | (key, d) :: entries, _, column, w, laid, legible, read, rest, there, n, next, reached, outer,
      token => by
    obtain ⟨name, first, more, rfl, laidKey, laidFirst, laidMore⟩ := laidEntries_cons laid
    obtain ⟨allowed, begins, named⟩ := moves_of_laidKey laidKey legible.2.1 there reached d
      (w := first ++ more ++ (newLine next ++ rest))
      ((laidFirst.beginsInk.append more).append _).beginsToken
    subst there
    have opened := Nest.margin_opened .blockMapping reached
    generalize n.opened .blockMapping (columnAfter 0 read) = m at named opened ⊢
    by_cases last : entries = []
    · subst last
      obtain rfl := laidMore
      have moves := moves_of_laid d laidFirst legible.2.2.1 (n := m.emitAll (keyTokens key)) opened
        begins outer token
      simp only [List.append_nil] at named
      simpa [Nest.emitAll_append, entryTokens] using named.trans moves
    · obtain ⟨v, rfl, later⟩ := laidMore.exists_line last
      have moves := moves_of_laid d laidFirst legible.2.2.1 (n := m.emitAll (keyTokens key)) opened
        begins (Nat.le_refl _) (later.append (newLine next ++ rest)).beginsToken
      rw [Nest.closed_of_margin_le (by exact Nat.le_of_eq opened)] at moves
      have there : columnAfter 0 (read ++ name ++ lead (columnAfter 0 read) (isSimple key) d ++
          first ++ newLine (columnAfter 0 read)) = columnAfter 0 read := by
        rw [columnAfter_append, columnAfter_newLine]
      have moves' := moves_of_laidEntries entries last laidMore legible.2.2.2 there
        (n := (m.emitAll (keyTokens key)).emitAll (d.tokens (isSimple key))) next
        (Nat.le_of_eq opened) outer token
      rw [Nest.opened_of_lt (by exact opened ▸ Nat.lt_succ_self _)] at moves'
      simp only [List.append_assoc] at named moves
      simpa [Nest.emitAll_append, entryTokens] using
        named.trans (moves.trans (by simpa [Nest.emitAll_append] using moves'))

end

/-- The tokens of a document of entries are those of the entries. -/
theorem tokens_of_document {entries : List (Text × Data)} {w : Text} (some : entries ≠ [])
    (laid : LaidEntries 0 entries (newLine 0 ++ w)) (legible : EntriesLegible 0 entries) :
    Tokens.of (w ++ newLine 0) = ⟨(Data.map entries).tokens false, none⟩ := by
  obtain ⟨v, same, begins⟩ := laid.exists_line some
  obtain rfl := List.append_cancel_left same
  have nothing : BeginsToken [] := ⟨nofun, nofun, nofun⟩
  have settled := Scan.settle_stale [] ⟨[], []⟩ true (k := none)
    (begins.append (newLine 0)).beginsToken nofun
  have there : columnAfter 0 [] = 0 := rfl
  have moves := moves_of_laidEntries entries some laid legible there (n := ⟨[], []⟩) 0
    (Nat.zero_le _) (Nat.le_refl 0) nothing
  rw [Nest.opened_of_le (Nat.le_refl 0), Nest.closed_of_margin_le (by exact Nat.le_refl 1)] at moves
  have notEmpty : entries.isEmpty = false := by simpa using some
  have settled' : (Scan.start (w ++ newLine 0)).settle =
      .ok (Scan.between [] (w ++ newLine 0) ⟨[], []⟩ true none) := settled
  have way : Relation.ReflTransGen Scan.Moves (Scan.between [] (w ++ newLine 0) ⟨[], []⟩ true none)
      (Scan.between (w ++ newLine 0) [] (Nest.emitAll ⟨[0], [.blockMapping]⟩ (entryTokens entries))
        true none) := by
    simpa using moves.to_reflTransGen
  have found := Scan.run_of_moves way rfl rfl settled' (Nat.lt_succ_self _)
  rw [Data.tokens, notEmpty, Tokens.of]
  refine found.trans ?_
  simp [Scan.tokens, Scan.between, Nest.emitAll, Scan.closeAll, Scan.inFlow, Scan.closeBlocks]

end Yaml

end SwaggerDoc
