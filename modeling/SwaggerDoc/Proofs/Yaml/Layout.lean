import SwaggerDoc.Proofs.Yaml.Drawn
import SwaggerDoc.Proofs.Yaml.Integers
import SwaggerDoc.Proofs.Yaml.Spelling
import SwaggerDoc.Yaml.Token

/-!
How data are laid out on lines.

`Laid` says which characters show data in a block that begins in a column: the items of a list each
behind a hyphen, the entries of a mapping each behind a colon, and parts in lines of their own
further in. Drawings are written so (`write_of_shows`).
-/

namespace SwaggerDoc

/-- Whether an atom is written without quotes. -/
def Atom.isPlain (a : Atom) : Bool := Yaml.Style.choose a.tag a.characters false false == .plain

namespace Yaml

open Page

/-- Whether a key is written in front of a colon. -/
def isSimple (key : Text) : Bool := Drawing.isSimpleKey [] (.scalar none .string key false)

/-- The style of a key. -/
def keyStyle (key : Text) : Style := Style.choose .string key false (isSimple key)

/-- The column in which a list begins: that of the key in front of it, or further in. -/
def listColumn (column : Nat) (behindKey : Bool) : Nat := if behindKey then column else column + 2

/-- What stands between an indicator and data: a space, or a new line for what has lines of its own
behind a key. -/
def lead (column : Nat) (behindKey : Bool) : Data → Text
  | .atom _ => [32]
  | .list items => if behindKey && !items.isEmpty then newLine column else [32]
  | .map entries => if behindKey && !entries.isEmpty then newLine (column + 2) else [32]

/-- Characters show a key up to the colon behind it. A key that is not simple has a question mark in
front and the colon on a line of its own. -/
def LaidKey (column : Nat) (key w : Text) : Prop :=
  ∃ name, Spells (column + 2) name (keyStyle key == .plain) key ∧
    (isSimple key = true ∧ name = oneLine (keyStyle key) key ∧ w = name ++ [58] ∨
      isSimple key = false ∧ w = 63 :: 32 :: (name ++ (newLine column ++ [58])))

mutual

/-- Characters show data inside a block that begins in a column. `behindKey` says that they stand
behind a colon on the line of the key. -/
def Laid (column : Nat) (behindKey : Bool) : Data → Text → Prop
  | .atom a, w => Spells (column + 2) w a.isPlain a.characters
  | .list items, w =>
    items = [] ∧ w = [91, 93] ∨ items ≠ [] ∧
      LaidAll (listColumn column behindKey) items (newLine (listColumn column behindKey) ++ w)
  | .map entries, w =>
    entries = [] ∧ w = [123, 125] ∨ entries ≠ [] ∧
      LaidEntries (column + 2) entries (newLine (column + 2) ++ w)

/-- Characters show items, each on a line that begins in a column. -/
def LaidAll (column : Nat) : List Data → Text → Prop
  | [], w => w = []
  | d :: rest, w => ∃ first more, w = newLine column ++ 45 :: 32 :: (first ++ more) ∧
    Laid column false d first ∧ LaidAll column rest more

/-- Characters show entries, each on a line that begins in a column. -/
def LaidEntries (column : Nat) : List (Text × Data) → Text → Prop
  | [], w => w = []
  | (key, d) :: rest, w => ∃ name first more,
    w = newLine column ++ (name ++ (lead column (isSimple key) d ++ (first ++ more))) ∧
    LaidKey column key name ∧ Laid column (isSimple key) d first ∧ LaidEntries column rest more

end

/-! ## What comes through -/

/-- A key in front of a colon has at most 1024 characters with its quotes. -/
def FitsKey (key : Text) : Prop :=
  isSimple key = true → (oneLine (keyStyle key) key).length ≤ Scan.longestCandidate

mutual

/-- The texts and keys of data come through in the columns in which they are laid out. -/
def LegibleIn (column : Nat) (behindKey : Bool) : Data → Prop
  | .atom (.text t) => Legible (column + 2) true t
  | .atom _ => True
  | .list items => AllLegible (listColumn column behindKey) items
  | .map entries => EntriesLegible (column + 2) entries

/-- The texts and keys of items come through. -/
def AllLegible (column : Nat) : List Data → Prop
  | [] => True
  | d :: rest => LegibleIn column false d ∧ AllLegible column rest

/-- The texts and keys of entries come through. -/
def EntriesLegible (column : Nat) : List (Text × Data) → Prop
  | [] => True
  | (key, d) :: rest => Legible (column + 2) (!isSimple key) key ∧ FitsKey key ∧
    LegibleIn column (isSimple key) d ∧ EntriesLegible column rest

end

theorem choose_of_plain {tag : NodeTag} {t : Text} (implicit : Implicit.tag t = tag)
    (allowed : (Features.of t).plain = true) : Style.choose tag t false false = .plain := by
  simp [Style.choose, implicit, allowed]

/-- Atoms that are no texts are written without quotes. -/
theorem choose_of_atom {a : Atom} (noText : a.tag ≠ .string) :
    Style.choose a.tag a.characters false false = .plain ∧ a.characters ≠ [] := by
  cases a with
  | null => exact ⟨choose_of_plain (by decide) (by decide), by decide⟩
  | bool b =>
    cases b
    · exact ⟨choose_of_plain (by decide) (by decide), by decide⟩
    · exact ⟨choose_of_plain (by decide) (by decide), by decide⟩
  | int i =>
    refine ⟨choose_of_plain (tag_ofInt i) (plain_ofInt i), fun none => ?_⟩
    obtain ⟨sign, -, same⟩ := exists_ofInt i
    rw [Atom.characters, same, List.append_eq_nil_iff] at none
    exact Text.ofNat_ne_nil none.2
  | text t => exact absurd rfl noText

theorem legible_of_basic {column : Nat} {t : Text} (basic : ∀ c ∈ t, 32 ≤ c ∧ c < 127)
    (needless : ∀ c ∈ t, needsEscape c = false) {folds : Bool} : Legible column folds t where
  characters c member := Nat.lt_trans (basic c member).2 (by decide)
  noNextLine _ c member := by
    rintro rfl
    exact absurd (basic _ member).2 (by decide)
  foldable _ _ := .inr fun a x y b (same : t.tail.dropLast = _) escaped => by
    have inside : x ∈ t.tail.dropLast := same ▸ List.mem_append_right a List.mem_cons_self
    rw [needless x (List.mem_of_mem_tail (List.dropLast_subset _ inside))] at escaped
    cases escaped

theorem legible_of_atom {column : Nat} {behindKey : Bool} {a : Atom}
    (legible : LegibleIn column behindKey (.atom a)) : Legible (column + 2) true a.characters := by
  cases a with
  | null => exact legible_of_basic (by decide) (by decide)
  | bool b =>
    cases b
    · exact legible_of_basic (by decide) (by decide)
    · exact legible_of_basic (by decide) (by decide)
  | int i =>
    refine legible_of_basic (fun c member => ?_) (fun c member => ?_)
    · have range := range_of_mem_ofInt member
      exact ⟨Nat.le_trans (by decide) range.1, Nat.lt_of_le_of_lt range.2.1 (by decide)⟩
    · obtain ⟨least, greatest, -⟩ := range_of_mem_ofInt member
      have table : ∀ n < 13, needsEscape (45 + n) = false := by decide
      have found := table (c - 45) (by dsimp only [CodePoint] at *; omega)
      rwa [Nat.add_sub_cancel' least] at found
  | text t => exact legible

/-! ## Writing -/

/-- A page where data can follow: behind a colon on the line of a key, or behind another indicator
of a block that begins in a column. -/
inductive Awaits (column : Nat) (position : Position) (p : Page) : (behindKey : Bool) → Prop
  | colon (inMapping : position.inMapping = true) (inked : p.Inked) : Awaits column position p true
  | indicator (behind : p.column = column + 1) (separated : p.separated = false)
    (indenting : p.indenting = true) : Awaits column position p false

section Awaits

variable {column : Nat} {position : Position} {p : Page} {behindKey : Bool}

theorem Awaits.separated_eq (awaits : Awaits column position p behindKey) :
    p.separated = false := by
  cases awaits with
  | colon inMapping inked => exact inked.separated
  | indicator behind separated => exact separated

/-- A block begins on a new line behind a key, and on the same line behind another indicator. -/
theorem Awaits.indent (awaits : Awaits column position p behindKey) (inner : Nat)
    (further : behindKey = false → inner = column + 2) :
    Wrote p (if behindKey then newLine inner else [32]) (p.indent inner) ∧
      (p.indent inner).AtIndent inner := by
  cases awaits with
  | colon inMapping inked => exact indent_new inner (.inl inked.indenting)
  | indicator behind separated indenting =>
    obtain rfl := further rfl
    have inside : p.column < column + 2 := by omega
    have filled := indent_on inside indenting
    have one : column + 2 - p.column = 1 := by omega
    rwa [one] at filled

theorem Awaits.listColumn_eq (awaits : Awaits column position p behindKey) :
    (if position.inMapping && !p.indenting then column else column + 2) =
      listColumn column behindKey := by
  cases awaits with
  | colon inMapping inked => simp [listColumn, inMapping, inked.indenting]
  | indicator behind separated indenting => simp [listColumn, indenting]

end Awaits

theorem lead_of_indicator (column : Nat) (d : Data) : lead column false d = [32] := by
  cases d <;> rfl

theorem name?_nil (place : Option Place) : Anchors.name? [] place = none := by
  cases place <;> rfl

/-- Behind an indicator that separates nothing, a page awaits what the indicator is about. -/
theorem awaits_indicator {column : Nat} {p : Page} (position : Position) (x : CodePoint)
    (there : p.AtIndent column) :
    Wrote p [x] (p.indicator [x] true false true) ∧
      Awaits column position (p.indicator [x] true false true) false := by
  have wrote := wrote_indicator p [x] true false true
  rw [led, there.separated, Bool.true_or, if_pos rfl] at wrote
  have same : p.indicator [x] true false true =
      { p.put [x] with
        separated := false, indenting := p.indenting && true, openEnded := false } := by
    rw [indicator, there.separated]
    rfl
  refine ⟨wrote, .indicator ?_ rfl ?_⟩
  · rw [same]
    exact congrArg (· + 1) there.column
  · rw [same]
    simp [there.indenting]

theorem exists_atom {column : Nat} {behindKey : Bool} {a : Atom}
    (legible : LegibleIn column behindKey (.atom a)) {position : Position} {p : Page}
    (inner : position.root = false) (value : position.key = false)
    (awaits : Awaits column position p behindKey) :
    ∃ w, Wrote p (32 :: w) (Drawing.write [] (some column) position
        (.scalar none a.tag a.characters false) p) ∧
      (Drawing.write [] (some column) position (.scalar none a.tag a.characters false) p).Inked ∧
      Laid column behindKey (.atom a) w := by
  have untagged (noText : a.tag ≠ .string) :
      Style.choose a.tag a.characters false position.key = .plain ∧ a.characters ≠ [] := by
    rw [value]
    exact choose_of_atom noText
  obtain ⟨w, wrote, inked, shows, -⟩ := exists_spelled _ (p := p) inner
    (by rw [value]; exact legible_of_atom legible) untagged
  rw [led, awaits.separated_eq, Bool.not_true, Bool.or_false, if_neg Bool.false_ne_true] at wrote
  rw [value] at shows
  exact ⟨w, wrote, inked, shows⟩

theorem exists_brackets {column : Nat} {behindKey : Bool} {position : Position} {p : Page}
    (left right : CodePoint) (awaits : Awaits column position p behindKey) :
    Wrote p [32, left, right]
        ((p.indicator [left] true true false).indicator [right] false false false) ∧
      ((p.indicator [left] true true false).indicator [right] false false false).Inked := by
  have opens := wrote_indicator p [left] true true false
  rw [led, awaits.separated_eq, Bool.not_true, Bool.or_false, if_neg Bool.false_ne_true] at opens
  have closes := wrote_indicator (p.indicator [left] true true false) [right] false false false
  rw [led, Bool.not_false, Bool.or_true, if_pos rfl] at closes
  exact ⟨opens.trans closes, rfl, Bool.and_false _⟩

/-- A key is written up to the colon behind it, and the page then awaits its value. -/
theorem exists_key {column : Nat} {key : Text} (legible : Legible (column + 2) (!isSimple key) key)
    {p : Page} (there : p.AtIndent column) {q : Page}
    (written : q = if isSimple key then
        (Drawing.write [] (some column) ⟨false, true, true⟩ (.scalar none .string key false)
          p).indicator [58] false false false
      else
        ((Drawing.write [] (some column) ⟨false, true, false⟩ (.scalar none .string key false)
          (p.indicator [63] true false true)).indent column).indicator [58] true false true) :
    ∃ w, Wrote p w q ∧ LaidKey column key w ∧
      Awaits column ⟨false, true, false⟩ q (isSimple key) := by
  cases simple : isSimple key with
  | true =>
    rw [simple, if_pos rfl] at written
    rw [simple] at legible
    subst written
    obtain ⟨w, wrote, inked, shows, plainly⟩ := exists_spelled ⟨false, true, true⟩
      (p := p) rfl legible (fun noText => absurd rfl noText)
    rw [led, there.separated, Bool.true_or, if_pos rfl] at wrote
    have closes :=
      wrote_indicator (p.scalar (column + 2) ⟨false, true, true⟩ .string key false) [58]
      false false false
    rw [led, Bool.not_false, Bool.or_true, if_pos rfl] at closes
    have oneLine : ∀ x ∈ key, isBreak x = false := by
      simp only [isSimple, Drawing.isSimpleKey, Bool.and_eq_true, Bool.not_eq_true',
        List.any_eq_false] at simple
      exact fun x member => Bool.eq_false_iff.mpr (simple.1.2 x member)
    have style : keyStyle key = Style.choose .string key false true := by rw [keyStyle, simple]
    refine ⟨w ++ [58], wrote.trans closes, ⟨w, by rwa [style], .inl ⟨simple, ?_, rfl⟩⟩, .colon rfl
      ⟨rfl, Bool.and_false _⟩⟩
    rw [style]
    exact plainly rfl oneLine
  | false =>
    rw [simple, if_neg Bool.false_ne_true] at written
    rw [simple] at legible
    subst written
    obtain ⟨question, awaits⟩ := awaits_indicator ⟨false, true, false⟩ 63 there
    obtain ⟨w, wrote, inked, shows, -⟩ := exists_spelled ⟨false, true, false⟩
      (p := p.indicator [63] true false true) rfl legible (fun noText => absurd rfl noText)
    rw [led, awaits.separated_eq, Bool.not_true, Bool.or_false, if_neg Bool.false_ne_true] at wrote
    obtain ⟨newLine, there'⟩ := indent_new column (.inl inked.indenting)
    obtain ⟨colon, awaits'⟩ := awaits_indicator ⟨false, true, false⟩ 58 there'
    have style : keyStyle key = Style.choose .string key false false := by rw [keyStyle, simple]
    exact ⟨_, question.trans (wrote.trans (newLine.trans colon)),
      ⟨w, by rwa [style], .inr ⟨simple, by simp⟩⟩, awaits'⟩

mutual

/-- What a drawing of data is written as shows the data. -/
theorem write_of_shows : (d : Data) → {drawing : Drawing} → drawing.Shows d → {column : Nat} →
    {behindKey : Bool} → LegibleIn column behindKey d → {position : Position} → {p : Page} →
    position.root = false → position.key = false → Awaits column position p behindKey →
    ∃ w, Wrote p (lead column behindKey d ++ w) (drawing.write [] (some column) position p) ∧
      (drawing.write [] (some column) position p).Inked ∧ Laid column behindKey d w
  | .atom a, drawing, shows, column, behindKey, legible, position, p, inner, value, awaits => by
    obtain rfl := shows
    exact exists_atom legible inner value awaits
  | .list items, drawing, shows, column, behindKey, legible, position, p, inner, value, awaits => by
    obtain ⟨place, parts, rfl, shown⟩ := shows
    rw [Drawing.write]
    simp only [name?_nil, Page.anchor, awaits.listColumn_eq]
    by_cases empty : items = []
    · subst empty
      obtain rfl := shown
      obtain ⟨wrote, inked⟩ := exists_brackets 91 93 awaits
      rw [lead, List.isEmpty_nil, Bool.not_true, Bool.and_false, if_neg Bool.false_ne_true]
      exact ⟨[91, 93], wrote, inked, .inl ⟨rfl, rfl⟩⟩
    · obtain ⟨indents, there⟩ := awaits.indent (listColumn column behindKey) (by rintro rfl; rfl)
      obtain ⟨w, wrote, inked, laid⟩ := writeItems_of_show items empty shown legible indents there
      have lead_eq : lead column behindKey (.list items) =
          if behindKey then newLine (listColumn column behindKey) else [32] := by
        have some : items.isEmpty = false := by simpa using empty
        cases behindKey <;> simp [lead, some, listColumn]
      have more : parts.isEmpty = false := by
        obtain ⟨d, rest, rfl⟩ := List.exists_cons_of_ne_nil empty
        obtain ⟨first, more, rfl, -⟩ := shown
        rfl
      rw [lead_eq, more]
      exact ⟨w, wrote, inked, .inr ⟨empty, laid⟩⟩
  | .map entries, drawing, shows, column, behindKey, legible, position, p, inner, value,
    awaits => by
    obtain ⟨place, parts, rfl, shown⟩ := shows
    rw [Drawing.write]
    simp only [name?_nil, Page.anchor, if_true]
    by_cases empty : entries = []
    · subst empty
      obtain rfl := shown
      obtain ⟨wrote, inked⟩ := exists_brackets 123 125 awaits
      rw [lead, List.isEmpty_nil, Bool.not_true, Bool.and_false, if_neg Bool.false_ne_true]
      exact ⟨[123, 125], wrote, inked, .inl ⟨rfl, rfl⟩⟩
    · obtain ⟨indents, there⟩ := awaits.indent (column + 2) fun _ => rfl
      obtain ⟨w, wrote, inked, laid⟩ :=
        writeEntries_of_show entries empty shown legible indents there
      have lead_eq : lead column behindKey (.map entries) =
          if behindKey then newLine (column + 2) else [32] := by
        have some : entries.isEmpty = false := by simpa using empty
        cases behindKey <;> simp [lead, some]
      have more : parts.isEmpty = false := by
        obtain ⟨⟨key, d⟩, rest, rfl⟩ := List.exists_cons_of_ne_nil empty
        obtain ⟨first, more, rfl, -⟩ := shown
        rfl
      rw [lead_eq, more]
      exact ⟨w, wrote, inked, .inr ⟨empty, laid⟩⟩

theorem writeItems_of_show : (items : List Data) → items ≠ [] → {parts : List Drawing} →
    Drawing.ShowAll parts items → {column : Nat} → AllLegible column items → {p : Page} →
    {v : Text} →
    Wrote p v (p.indent column) → (p.indent column).AtIndent column →
    ∃ w, Wrote p (v ++ w) (Drawing.writeItems [] column parts p) ∧
      (Drawing.writeItems [] column parts p).Inked ∧ LaidAll column items (newLine column ++ w)
  | [], nonempty, _, _, _, _, _, _, _, _ => absurd rfl nonempty
  | d :: rest, _, parts, shown, column, legible, p, v, indents, there => by
    obtain ⟨first, more, rfl, shows, shown'⟩ := shown
    obtain ⟨hyphen, awaits⟩ := awaits_indicator ⟨false, false, false⟩ 45 there
    obtain ⟨w, wrote, inked, laid⟩ := write_of_shows d shows legible.1 rfl rfl awaits
    rw [lead_of_indicator] at wrote
    have line := indents.trans (hyphen.trans wrote)
    rw [Drawing.writeItems]
    by_cases last : rest = []
    · subst last
      obtain rfl := shown'
      exact ⟨_, line, inked, w, [], by simp, laid, rfl⟩
    · obtain ⟨newLine, there'⟩ := indent_new column (.inl inked.indenting)
      obtain ⟨w', wrote', inked', laid'⟩ :=
        writeItems_of_show rest last shown' legible.2 newLine there'
      exact ⟨_, by simpa using line.trans wrote', inked', w, _, by simp, laid, laid'⟩

theorem writeEntries_of_show : (entries : List (Text × Data)) → entries ≠ [] →
    {parts : List (Drawing × Drawing)} → Drawing.ShowEntries parts entries → {column : Nat} →
    EntriesLegible column entries → {p : Page} → {v : Text} →
    Wrote p v (p.indent column) → (p.indent column).AtIndent column →
    ∃ w, Wrote p (v ++ w) (Drawing.writeEntries [] column parts p) ∧
      (Drawing.writeEntries [] column parts p).Inked ∧
      LaidEntries column entries (newLine column ++ w)
  | [], nonempty, _, _, _, _, _, _, _, _ => absurd rfl nonempty
  | (key, d) :: rest, _, parts, shown, column, legible, p, v, indents, there => by
    obtain ⟨first, more, rfl, shows, shown'⟩ := shown
    obtain ⟨name, named, laidKey, awaits⟩ := exists_key legible.1 there rfl
    obtain ⟨w, wrote, inked, laid⟩ := write_of_shows d shows legible.2.2.1 rfl rfl awaits
    have line := indents.trans (named.trans wrote)
    rw [Drawing.writeEntries]
    by_cases last : rest = []
    · subst last
      obtain rfl := shown'
      exact ⟨_, line, inked, name, w, [], by simp, laidKey, laid, rfl⟩
    · obtain ⟨newLine, there'⟩ := indent_new column (.inl inked.indenting)
      obtain ⟨w', wrote', inked', laid'⟩ :=
        writeEntries_of_show rest last shown' legible.2.2.2 newLine there'
      have all := line.trans wrote'
      simp only [List.append_assoc] at all
      exact ⟨_, all, inked', name, w, _, by simp, laidKey, laid, laid'⟩

end

/-- A document of entries ends with the line break behind the last of them. -/
theorem document_of_shows {entries : List (Text × Data)} {drawing : Drawing} (some : entries ≠ [])
    (shows : drawing.Shows (.map entries)) (alone : drawing.references = [])
    (legible : EntriesLegible 0 entries) :
    ∃ w, drawing.document = w ++ newLine 0 ∧ LaidEntries 0 entries (newLine 0 ++ w) := by
  obtain ⟨place, parts, rfl, shown⟩ := shows
  obtain ⟨nothing, there⟩ := indent_lineStart (p := blank) ⟨rfl, rfl, rfl⟩ 0
  obtain ⟨w, wrote, inked, laid⟩ := writeEntries_of_show entries some shown legible nothing there
  obtain ⟨newLine, -⟩ := indent_new 0 (.inl inked.indenting)
  have all := wrote.trans newLine
  have more : parts.isEmpty = false := by
    obtain ⟨⟨key, d⟩, rest, rfl⟩ := List.exists_cons_of_ne_nil some
    obtain ⟨first, more, rfl, -⟩ := shown
    rfl
  have written : Drawing.write [] none ⟨true, false, false⟩ (.mapping place .mapping parts) blank =
      Drawing.writeEntries [] 0 parts blank := by
    rw [Drawing.write]
    simp only [name?_nil, Page.anchor, if_true, more]
    rfl
  have closed : ((Drawing.writeEntries [] 0 parts blank).indent 0).openEnded = false :=
    Bool.eq_false_iff.mpr fun left => Bool.false_ne_true (all.openEnded left)
  refine ⟨w, ?_, laid⟩
  unfold Drawing.document
  simp only [alone, List.foldl_nil, written, closed, Bool.false_eq_true, if_false, all.reversed]
  simp [blank]

end Yaml

end SwaggerDoc
