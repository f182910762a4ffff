import Mathlib.Logic.Relation
import SwaggerDoc.Proofs.Yaml.Spelling
import SwaggerDoc.Yaml.Token

/-!
Scanning from token to token.

`Scan.between` is a scan outside brackets that stands where a token begins, with the blocks and the
tokens found so far in a `Nest`. `Scan.Moves` goes from one such place to the next, and a way that
leads to the end of the text gives its tokens (`Scan.run_of_moves`).
-/

namespace SwaggerDoc.Yaml

/-- The columns of the blocks around a place, the innermost first, and the tokens found before it,
the last one first. -/
structure Nest where
  blocks : List Nat
  found : List Token

namespace Nest

/-- Adds a token. -/
def emit (n : Nest) (t : Token) : Nest := { n with found := t :: n.found }

/-- Adds tokens in order. -/
def emitAll (n : Nest) (ts : List Token) : Nest := { n with found := ts.reverse ++ n.found }

/-- The first column inside the innermost block. -/
def margin (n : Nest) : Nat :=
  match n.blocks with
  | [] => 0
  | column :: _ => column + 1

/-- Begins a block in a column, unless the innermost one begins there. -/
def opened (n : Nest) (t : Token) (column : Nat) : Nest :=
  if n.margin ≤ column then ⟨column :: n.blocks, t :: n.found⟩ else n

/-- How many blocks begin behind a column. -/
def ended (n : Nest) (column : Nat) : Nat :=
  (n.blocks.takeWhile fun c => !decide (c ≤ column)).length

/-- Ends the blocks that begin behind a column. -/
def closed (n : Nest) (column : Nat) : Nest :=
  ⟨n.blocks.drop (n.ended column), List.replicate (n.ended column) .blockEnd ++ n.found⟩

theorem closed_of_margin_le {n : Nest} {column : Nat} (inside : n.margin ≤ column + 1) :
    n.closed column = n := by
  have none : n.ended column = 0 := by
    obtain ⟨blocks, found⟩ := n
    cases blocks with
    | nil => rfl
    | cons c blocks =>
      have before : c ≤ column := Nat.le_of_succ_le_succ inside
      simp [ended, before]
  simp [closed, none]

/-- A block behind the column is ended before those around it. -/
theorem closed_cons {c column : Nat} (behind : column < c) (blocks : List Nat)
    (found : List Token) :
    (⟨c :: blocks, found⟩ : Nest).closed column =
      (⟨blocks, .blockEnd :: found⟩ : Nest).closed column := by
  have one : (⟨c :: blocks, found⟩ : Nest).ended column =
      (⟨blocks, .blockEnd :: found⟩ : Nest).ended column + 1 := by
    simp [ended, Nat.not_le.mpr behind]
  simp only [closed, one, List.drop_succ_cons, List.replicate_succ', List.append_assoc,
    List.singleton_append]

theorem emitAll_append (n : Nest) (ts us : List Token) :
    (n.emitAll ts).emitAll us = n.emitAll (ts ++ us) := by
  simp [emitAll]

theorem emit_eq (n : Nest) (t : Token) : n.emit t = n.emitAll [t] := rfl

@[simp] theorem margin_emit (n : Nest) (t : Token) : (n.emit t).margin = n.margin := rfl

@[simp] theorem margin_emitAll (n : Nest) (ts : List Token) :
    (n.emitAll ts).margin = n.margin := rfl

theorem opened_of_lt {n : Nest} {column : Nat} (around : column < n.margin) (t : Token) :
    n.opened t column = n := if_neg (Nat.not_le.mpr around)

theorem opened_of_le {n : Nest} {column : Nat} (inside : n.margin ≤ column) (t : Token) :
    n.opened t column = ⟨column :: n.blocks, t :: n.found⟩ := if_pos inside

/-- Behind what begins a block in a column, the columns behind it are inside the block. -/
theorem margin_opened {n : Nest} {column : Nat} (t : Token) (reached : n.margin ≤ column + 1) :
    (n.opened t column).margin = column + 1 := by
  unfold opened
  split
  · rfl
  · omega

end Nest

/-- What begins a token: no blank, no comment and no byte order mark. Nothing at all does too. -/
structure BeginsToken (rest : Text) : Prop where
  solid : BeginsSolid rest
  noComment : rest.head? ≠ some 35
  noMark : rest.head? ≠ some 0xFEFF

namespace Scan

/-- A scan outside brackets. -/
def between (read rest : Text) (n : Nest) (allowed : Bool) (candidate : Option Candidate) : Scan :=
  ⟨.behind read rest, n.found, n.found.length, n.blocks, allowed, candidate, []⟩

section Blanks

variable {read rest : Text} {n : Nest} {allowed : Bool} {k : Option Candidate}

theorem closeBlocks_between (column : Nat) :
    (between read rest n allowed k).closeBlocks (· ≤ column) =
      between read rest (n.closed column) allowed k := by
  simp only [closeBlocks, between, Nest.closed, Nest.ended, List.length_append,
    List.length_replicate]
  congr 1
  exact Nat.add_comm _ _

theorem skipComment_behind (noComment : rest.head? ≠ some 35) :
    (Cursor.behind read rest).skipComment = .behind read rest := by
  refine if_neg ?_
  cases rest with
  | nil => exact nofun
  | cons x rest => exact fun same => noComment (congrArg some same)

theorem passBlanks_spaces (read : Text) (n : Nest) (allowed : Bool) (k : Option Candidate)
    (fuel spaces : Nat) (token : BeginsToken rest) :
    passBlanks (fuel + 1) (between read (List.replicate spaces 32 ++ rest) n allowed k) =
      between (read ++ List.replicate spaces 32) rest n allowed k := by
  have blank : ∀ x ∈ List.replicate spaces 32, (x == 32) = true := by
    intro x member
    rw [List.eq_of_mem_replicate member]
    rfl
  have skips : (Cursor.behind read (List.replicate spaces 32 ++ rest)).skipSpaces =
      .behind (read ++ List.replicate spaces 32) rest :=
    Cursor.skip_behind blank fun x head => (Lexeme.isSpace_of_solid (token.solid x head)).1
  have ends : (Cursor.behind (read ++ List.replicate spaces 32) rest).lineBreak? = none :=
    Cursor.lineBreak?_eq_none _ fun x head => (Lexeme.isSpace_of_solid (token.solid x head)).2
  simp only [passBlanks, between, skips, skipComment_behind token.noComment, ends, goTo]

theorem passBlanks_newLine (read : Text) (n : Nest) (allowed : Bool) (k : Option Candidate)
    (fuel column : Nat) (token : BeginsToken rest) :
    passBlanks (fuel + 2) (between read (newLine column ++ rest) n allowed k) =
      between (read ++ newLine column) rest n true k := by
  have skips : (Cursor.behind read (newLine column ++ rest)).skipSpaces.skipComment =
      .behind read (newLine column ++ rest) := rfl
  have ends : (Cursor.behind read (newLine column ++ rest)).lineBreak? =
      some (10, .behind (read ++ [10]) (List.replicate column 32 ++ rest)) :=
    Cursor.lineBreak?_behind_cons rfl
  have flow : (allowed || !(between read (newLine column ++ rest) n allowed k).inFlow) = true :=
    Bool.or_true allowed
  have later := passBlanks_spaces (read ++ [10]) n true k fuel column token
  have read_eq : read ++ newLine column = read ++ [10] ++ List.replicate column 32 := by
    simp [newLine]
  rw [read_eq, ← later, passBlanks]
  simp only [between, skips, ends]
  simp only [between, goTo, allowKey] at flow ⊢
  rw [flow]

end Blanks

section Settling

variable {read rest : Text} {n : Nest} {allowed : Bool} {k k' : Option Candidate}

/-- Behind the blanks the blocks that do not reach so far end. -/
theorem settle_eq {t : Scan} (noMark : t.cursor.peek ≠ 0xFEFF)
    (passed : passBlanks (t.cursor.rest.length + 1) t = between read rest n allowed k)
    (dropped : (between read rest n allowed k).dropStale = .ok (between read rest n allowed k')) :
    t.settle = .ok (between read rest (n.closed (columnAfter 0 read)) allowed k') := by
  have noMark' : (t.cursor.index = 0 && t.cursor.peek = 0xFEFF) = false := by simp [noMark]
  unfold settle
  simp only [noMark', Bool.false_eq_true, if_false, passed, dropped, bind, Except.bind, pure,
    Except.pure]
  exact congrArg Except.ok (closeBlocks_between (columnAfter 0 read))

theorem peek_behind_ne_mark (noMark : rest.head? ≠ some 0xFEFF) :
    (Cursor.behind read rest).peek ≠ 0xFEFF := by
  cases rest with
  | nil => exact nofun
  | cons x rest => exact fun same => noMark (congrArg some same)

theorem peek_ne_mark (noMark : rest.head? ≠ some 0xFEFF) :
    (between read rest n allowed k).cursor.peek ≠ 0xFEFF := peek_behind_ne_mark noMark

/-- What was found on an earlier line and need not be a key is none. -/
def Passed (line : Nat) (k : Option Candidate) : Prop :=
  ∀ c ∈ k, c.needed = false ∧ c.line ≠ line

theorem dropStale_of_passed (passed : Passed (linesOf read) k) :
    (between read rest n allowed k).dropStale = .ok (between read rest n allowed none) := by
  cases k with
  | none => rfl
  | some c =>
    obtain ⟨needless, line⟩ := passed c rfl
    have stale : isStale (Cursor.behind read rest) c = true := by simp [isStale, line]
    simp [dropStale, between, stale, needless]

/-- What could be a key can still be one. -/
theorem dropStale_of_fresh {c : Candidate} (fresh : isStale (.behind read rest) c = false) :
    (between read rest n allowed (some c)).dropStale =
      .ok (between read rest n allowed (some c)) := by
  simp [dropStale, between, fresh]

theorem settle_spaces (read : Text) (n : Nest) (allowed : Bool) (spaces : Nat)
    (token : BeginsToken rest) :
    (between read (List.replicate spaces 32 ++ rest) n allowed none).settle =
      .ok (between (read ++ List.replicate spaces 32) rest
        (n.closed (columnAfter 0 read + spaces)) allowed none) := by
  have noMark : (List.replicate spaces 32 ++ rest).head? ≠ some 0xFEFF := by
    cases spaces with
    | zero => exact token.noMark
    | succ spaces => exact nofun
  have passed := passBlanks_spaces read n allowed none
    (List.replicate spaces 32 ++ rest).length spaces token
  have column : columnAfter 0 (read ++ List.replicate spaces 32) = columnAfter 0 read + spaces := by
    rw [columnAfter_append, columnAfter_spaces]
  rw [← column]
  exact settle_eq (peek_ne_mark noMark) passed (dropStale_of_passed nofun)

theorem settle_newLine (read : Text) (n : Nest) (allowed : Bool) (column : Nat)
    (token : BeginsToken rest) (passed : Passed (linesOf (read ++ newLine column)) k) :
    (between read (newLine column ++ rest) n allowed k).settle =
      .ok (between (read ++ newLine column) rest (n.closed column) true none) := by
  have blanks := passBlanks_newLine read n allowed k
    (List.replicate column 32 ++ rest).length column token
  have there : columnAfter 0 (read ++ newLine column) = column := by
    rw [columnAfter_append, columnAfter_newLine]
  have noMark : (newLine column ++ rest).head? ≠ some 0xFEFF := by simp [newLine]
  have settled := settle_eq (peek_ne_mark noMark) blanks (dropStale_of_passed passed)
  rwa [there] at settled

theorem settle_stale (read : Text) (n : Nest) (allowed : Bool) (token : BeginsToken rest)
    (passed : Passed (linesOf read) k) :
    (between read rest n allowed k).settle =
      .ok (between read rest (n.closed (columnAfter 0 read)) allowed none) := by
  have blanks := passBlanks_spaces read n allowed k rest.length 0 token
  simp only [List.replicate_zero, List.nil_append, List.append_nil] at blanks
  exact settle_eq (peek_ne_mark token.noMark) blanks (dropStale_of_passed passed)

theorem settle_fresh (n : Nest) (allowed : Bool) {c : Candidate} (token : BeginsToken rest)
    (fresh : isStale (.behind read rest) c = false) :
    (between read rest n allowed (some c)).settle =
      .ok (between read rest (n.closed (columnAfter 0 read)) allowed (some c)) := by
  have blanks := passBlanks_spaces read n allowed (some c) rest.length 0 token
  simp only [List.replicate_zero, List.nil_append, List.append_nil] at blanks
  exact settle_eq (peek_ne_mark token.noMark) blanks (dropStale_of_fresh fresh)

end Settling

/-! ## From token to token -/

/-- A scan where a token begins leads to the next such place. -/
structure Moves (s t : Scan) : Prop where
  goesOn : s.cursor.atEnd = false
  shorter : t.cursor.rest.length < s.cursor.rest.length
  steps : ∃ u, s.step = .ok u ∧ u.settle = .ok t

theorem run_of_settled {s t : Scan} (n : Nat) (settled : s.settle = .ok t) :
    run (n + 1) s =
      match (if t.cursor.atEnd then t.finish else t.step) with
      | .error p => s.stoppedBy p
      | .ok next => if t.cursor.atEnd then next.tokens else run n next := by
  show (match s.settle with
    | .error p => s.stoppedBy p
    | .ok settled =>
      let next := if settled.cursor.atEnd then settled.finish else settled.step
      match next with
      | .error p => s.stoppedBy p
      | .ok next => if settled.cursor.atEnd then next.tokens else run n next) = _
  rw [settled]

theorem run_of_atEnd {s t last : Scan} (n : Nat) (settled : s.settle = .ok t)
    (atEnd : t.cursor.atEnd = true) (finished : t.finish = .ok last) :
    run (n + 1) s = last.tokens := by
  rw [run_of_settled n settled]
  simp only [atEnd, if_true, finished]

theorem run_of_step {s t u : Scan} (n : Nat) (settled : s.settle = .ok t)
    (goesOn : t.cursor.atEnd = false) (step : t.step = .ok u) : run (n + 1) s = run n u := by
  rw [run_of_settled n settled]
  simp only [goesOn, Bool.false_eq_true, if_false, step]

/-- A way to the end of the text gives the tokens found there. -/
theorem run_of_moves {s t last : Scan} (moves : Relation.ReflTransGen Moves s t)
    (atEnd : t.cursor.atEnd = true) (finished : t.finish = .ok last) {u : Scan} {fuel : Nat}
    (settled : u.settle = .ok s) (enough : s.cursor.rest.length < fuel) :
    run fuel u = last.tokens := by
  induction moves using Relation.ReflTransGen.head_induction_on generalizing u fuel with
  | refl =>
    cases fuel with
    | zero => exact absurd enough (Nat.not_lt_zero _)
    | succ fuel => exact run_of_atEnd fuel settled atEnd finished
  | head first rest ih =>
    cases fuel with
    | zero => exact absurd enough (Nat.not_lt_zero _)
    | succ fuel =>
      obtain ⟨v, step, settled'⟩ := first.steps
      rw [run_of_step fuel settled first.goesOn step]
      exact ih settled' (Nat.lt_of_lt_of_le first.shorter (Nat.le_of_lt_succ enough))

end Scan

end SwaggerDoc.Yaml
