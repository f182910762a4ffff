import SwaggerDoc.Proofs.Number.Decimal
import SwaggerDoc.Proofs.Yaml.Pieces
import SwaggerDoc.Proofs.Yaml.Readable

/-!
The characters of drawn documents.

Whatever a drawing holds, it is written with characters that may stand in a text that is read
(`Drawing.allWritten_document`): a text with any other character is written between double quotes,
where such a character is an escape. Every step that writes on a page keeps this of the page.
-/

namespace SwaggerDoc.Yaml

/-- What is in a piece may be written, a word of it as it is spelled. -/
def Piece.AllWritten (word : Text → Text) : Piece → Prop
  | .spaces _ => True
  | .breaks t => Yaml.AllWritten t
  | .word t => Yaml.AllWritten (word t)

theorem AllWritten.pieces {t : Text} {word : Text → Text} (written : AllWritten t)
    (spelled : ∀ {u}, AllWritten u → AllWritten (word u)) :
    ∀ piece ∈ pieces t, piece.AllWritten word := by
  have runs := runs_pieces t
  generalize Yaml.pieces t = ps at runs
  induction runs with
  | nil => exact List.forall_mem_nil _
  | spaces n other runs ih =>
    have later := (List.forall_mem_append.mp written).2
    exact List.forall_mem_cons.mpr ⟨trivial, ih later⟩
  | breaks ends other runs ih =>
    obtain ⟨first, later⟩ := List.forall_mem_append.mp written
    exact List.forall_mem_cons.mpr ⟨first, ih later⟩
  | word ink other runs ih =>
    obtain ⟨first, later⟩ := List.forall_mem_append.mp written
    exact List.forall_mem_cons.mpr ⟨spelled first, ih later⟩

theorem AllWritten.doubled {t : Text} (written : AllWritten t) :
    AllWritten (t.flatMap fun c => if c = 39 then [39, 39] else [c]) := by
  intro x member
  obtain ⟨c, listed, inside⟩ := List.mem_flatMap.mp member
  have same : x = c := by
    split at inside
    · next quote =>
      rw [quote]
      simpa using inside
    · simpa using inside
  exact same ▸ written c listed

theorem AllWritten.reverse {t : Text} (written : AllWritten t) : AllWritten t.reverse :=
  fun x member => written x (List.mem_reverse.mp member)

theorem allWritten_padded (width n : Nat) : AllWritten (Text.padded width n) := by
  refine allWritten_basic fun x member => ?_
  rcases List.mem_append.mp member with zero | digit
  · rw [List.eq_of_mem_replicate zero]
    decide
  · have range := Text.isDigit_iff.mp (Text.isDigit_of_mem_ofNat digit)
    exact ⟨Nat.le_trans (by decide) range.1, Nat.lt_of_le_of_lt range.2 (by decide)⟩

namespace Page

/-- All characters on a page may stand in a text that is read. -/
def AllWritten (p : Page) : Prop := Yaml.AllWritten p.reversed

variable {p : Page} {t : Text} {x : CodePoint} {column : Nat}

theorem allWritten_blank : blank.AllWritten := allWritten_nil

theorem AllWritten.put (page : p.AllWritten) (written : Yaml.AllWritten t) :
    (p.put t).AllWritten :=
  Yaml.AllWritten.append written.reverse page

theorem AllWritten.endLineBy (page : p.AllWritten) (written : IsWritten x) :
    (p.endLineBy x).AllWritten :=
  Yaml.AllWritten.cons written page

theorem AllWritten.endLine (page : p.AllWritten) : p.endLine.AllWritten :=
  page.endLineBy isWritten_feed

theorem AllWritten.foldl_endLineBy (page : p.AllWritten) (written : Yaml.AllWritten t) :
    (t.foldl Page.endLineBy p).AllWritten := by
  induction t generalizing p with
  | nil => exact page
  | cons c t ih =>
    obtain ⟨first, later⟩ := List.forall_mem_cons.mp written
    exact ih (page.endLineBy first) later

theorem AllWritten.indent (page : p.AllWritten) (column : Nat) : (p.indent column).AllWritten := by
  have filled {q : Page} (page : q.AllWritten) : (if q.column < column then
      { q.put (List.replicate (column - q.column) 32) with separated := true } else q).AllWritten := by
    split
    · exact page.put (allWritten_spaces _)
    · exact page
  unfold Page.indent
  dsimp only
  split
  · exact filled page.endLine
  · exact filled page

theorem AllWritten.indicator (page : p.AllWritten) (written : Yaml.AllWritten t)
    (spaced opens indents : Bool) : (p.indicator t spaced opens indents).AllWritten := by
  unfold Page.indicator
  dsimp only
  split
  · exact page.put written
  · exact page.put (.cons (allWritten_spaces 1 32 List.mem_cons_self) written)

/-- An indicator of one character of the basic alphabet. -/
theorem AllWritten.mark (page : p.AllWritten) (basic : 32 ≤ x ∧ x < 127)
    (spaced opens indents : Bool) : (p.indicator [x] spaced opens indents).AllWritten :=
  page.indicator (allWritten_basic (List.forall_mem_singleton.mpr basic)) spaced opens indents

/-! ## Scalars -/

theorem AllWritten.pieces {word : Text → Text} (folds : Bool) {first : Bool} {ps : List Piece}
    (page : p.AllWritten) (written : ∀ piece ∈ ps, piece.AllWritten word) :
    (Page.pieces column folds word first ps p).AllWritten := by
  induction ps generalizing first p with
  | nil => exact page
  | cons piece rest ih =>
    obtain ⟨here, later⟩ := List.forall_mem_cons.mp written
    cases piece with
    | spaces n =>
      unfold Page.pieces
      dsimp only
      split
      · exact ih (page.indent column) later
      · exact ih (page.put (allWritten_spaces n)) later
    | breaks t =>
      unfold Page.pieces
      dsimp only
      split
      · exact ih ((page.endLine.foldl_endLineBy here).indent column) later
      · exact ih ((page.foldl_endLineBy here).indent column) later
    | word t => exact ih (page.put here) later

theorem AllWritten.plain (page : p.AllWritten) (written : Yaml.AllWritten t) (column : Nat)
    (folds root : Bool) : (p.plain column folds root t).AllWritten := by
  have spelled : ∀ piece ∈ Yaml.pieces t, piece.AllWritten id := written.pieces id
  have body {q : Page} (page : q.AllWritten) :
      (Page.pieces column folds id true (Yaml.pieces t)
        (if q.separated then q else q.put [32]).inText).inText.AllWritten := by
    refine AllWritten.pieces folds ?_ spelled
    split
    · exact page
    · exact page.put (allWritten_spaces 1)
  unfold Page.plain
  dsimp only
  split
  · split
    · exact page
    · exact page
  · split
    · exact body page
    · exact body page

theorem AllWritten.singleQuoted (page : p.AllWritten) (written : Yaml.AllWritten t) (column : Nat)
    (folds : Bool) : (p.singleQuoted column folds t).AllWritten := by
  have opened := page.mark (x := 39) (by decide) true false false
  refine AllWritten.mark (AllWritten.pieces folds opened ?_) (by decide) false false false
  exact written.pieces fun spelled => spelled.doubled

/-- Between double quotes any text is written with characters that can be read. -/
theorem AllWritten.doubleQuotedFrom (folds : Bool) {waiting : Text} {first : Bool}
    (page : p.AllWritten) (waits : Yaml.AllWritten waiting) :
    (Page.doubleQuotedFrom column folds waiting first t p).AllWritten := by
  induction t generalizing waiting first p with
  | nil => exact page.put waits.reverse
  | cons c rest ih =>
    have back : Yaml.AllWritten [92] := allWritten_basic (by decide)
    have folded {q : Page} {w : Text} (page : q.AllWritten) (waits : Yaml.AllWritten w) (x : CodePoint)
        {later : Text} (laterWaits : Yaml.AllWritten later) :
        (Page.doubleQuotedFrom column folds later false rest
          (if x = 32 then (((q.put (w.reverse ++ [92])).indent column).inText).put [92]
            else ((q.put (w.reverse ++ [92])).indent column).inText)).AllWritten := by
      have broken : ((q.put (w.reverse ++ [92])).indent column).inText.AllWritten :=
        (page.put (waits.reverse.append back)).indent column
      split
      · exact ih (broken.put back) laterWaits
      · exact ih broken laterWaits
    unfold Page.doubleQuotedFrom
    cases escapes : needsEscape c with
    | true =>
      have escaped : ((p.put waiting.reverse).put (escape c)).AllWritten :=
        (page.put waits.reverse).put (allWritten_basic (basic_escape c))
      simp only [if_true]
      split
      · exact folded escaped allWritten_nil _ allWritten_nil
      · exact ih escaped allWritten_nil
    | false =>
      have here := isWritten_of_needless escapes
      simp only [Bool.false_eq_true, if_false]
      split
      · exact folded page waits _ (.cons here allWritten_nil)
      · exact ih page (.cons here waits)

theorem AllWritten.doubleQuoted (page : p.AllWritten) (column : Nat) (folds : Bool) (t : Text) :
    (p.doubleQuoted column folds t).AllWritten := by
  have opened := page.mark (x := 34) (by decide) true false false
  exact (opened.doubleQuotedFrom folds allWritten_nil).mark (by decide) false false false

theorem AllWritten.literalLines {ps : List Piece} (page : p.AllWritten)
    (written : ∀ piece ∈ ps, piece.AllWritten id) :
    (Page.literalLines column ps p).AllWritten := by
  have line {q : Page} {w : Text} (page : q.AllWritten) (written : Yaml.AllWritten w)
      (rest : List Piece) : (Page.literalLines.line column w rest q).AllWritten := by
    have begun : (if q.column = 0 then q.indent column else q).AllWritten := by
      split
      · exact page.indent column
      · exact page
    have longer := Yaml.AllWritten.append written.reverse begun
    unfold Page.literalLines.line
    dsimp only
    split
    · exact Yaml.AllWritten.cons isWritten_feed longer
    · exact longer
  induction ps generalizing p with
  | nil => exact page
  | cons piece rest ih =>
    obtain ⟨here, later⟩ := List.forall_mem_cons.mp written
    cases piece with
    | spaces n => exact ih (line page (allWritten_spaces n) rest) later
    | breaks t => exact ih (page.foldl_endLineBy here) later
    | word t => exact ih (line page here rest) later

theorem basic_blockHints (t : Text) : ∀ y ∈ blockHints t, 32 ≤ y ∧ y < 127 := by
  have one (condition : Prop) [Decidable condition] (c : CodePoint) (basic : 32 ≤ c ∧ c < 127) :
      ∀ y ∈ (if condition then [c] else []), 32 ≤ y ∧ y < 127 := by
    split
    · exact List.forall_mem_singleton.mpr basic
    · exact List.forall_mem_nil _
  cases t with
  | nil => exact List.forall_mem_nil _
  | cons first rest =>
    refine List.forall_mem_append.mpr ⟨one _ 50 (by decide), ?_⟩
    dsimp only
    split
    · exact List.forall_mem_singleton.mpr (by decide)
    · exact one _ 43 (by decide)

theorem AllWritten.literal (page : p.AllWritten) (written : Yaml.AllWritten t) (column : Nat) :
    (p.literal column t).AllWritten := by
  have opened : (p.indicator (124 :: blockHints t) true false false).AllWritten :=
    page.indicator (allWritten_basic (List.forall_mem_cons.mpr ⟨by decide, basic_blockHints t⟩))
      true false false
  have lines : ({ p.indicator (124 :: blockHints t) true false false with
      openEnded := (blockHints t).getLast? == some 43 } : Page).endLine.AllWritten :=
    AllWritten.endLine (p := { p.indicator (124 :: blockHints t) true false false with
      openEnded := (blockHints t).getLast? == some 43 }) opened
  exact lines.literalLines (written.pieces id)

/-- Outside double quotes stand only characters that need no escape. -/
theorem allWritten_of_choose {tag : NodeTag} {lines key : Bool}
    (bare : Style.choose tag t lines key ≠ .doubleQuoted) : Yaml.AllWritten t := by
  have clean (special : t.all isPlainCharacter = true) : Yaml.AllWritten t := fun x member =>
    isWritten_of_plain (List.all_eq_true.mp special x member)
  cases t with
  | nil => exact allWritten_nil
  | cons c rest =>
    refine clean ?_
    by_contra special
    rw [Bool.not_eq_true] at special
    simp [Style.choose, Features.of, special] at bare

theorem allWritten_anchorName (n : Nat) : Yaml.AllWritten (anchorName n) :=
  (allWritten_basic (by decide)).append (allWritten_padded 3 n)

theorem AllWritten.anchor (page : p.AllWritten) (basic : 32 ≤ x ∧ x < 127) (anchors : Anchors)
    (place : Option Place) : (p.anchor x (anchors.name? place)).AllWritten := by
  unfold Page.anchor Anchors.name?
  cases place.bind fun q => anchors.idxOf? q with
  | none => exact page
  | some n =>
    exact page.indicator (.cons (isWritten_of_basic basic.1 basic.2) (allWritten_anchorName _))
      true false false

theorem allWritten_short (tag : NodeTag) : Yaml.AllWritten tag.short := by
  refine (allWritten_basic (by decide)).append ?_
  have names : ∀ e ∈ NodeTag.vocabulary, ∀ x ∈ e.2, 32 ≤ x ∧ x < 127 := by decide
  cases found : NodeTag.vocabulary.find? fun entry => entry.1 == tag with
  | none => exact allWritten_nil
  | some e => exact allWritten_basic (names e (List.mem_of_find?_eq_some found))

theorem AllWritten.tag (page : p.AllWritten) (tag : NodeTag) : (p.tag tag).AllWritten :=
  page.indicator (allWritten_short tag) true false false

theorem AllWritten.scalar (page : p.AllWritten) (column : Nat) (position : Position)
    (tag : NodeTag) (t : Text) (lines : Bool) :
    (p.scalar column position tag t lines).AllWritten := by
  have tagged (condition : Bool) : (if condition then p.tag tag else p).AllWritten := by
    split
    · exact page.tag tag
    · exact page
  have bare {style : Style} (chosen : Style.choose tag t lines position.key = style)
      (other : style ≠ .doubleQuoted) : Yaml.AllWritten t := allWritten_of_choose (chosen ▸ other)
  unfold Page.scalar
  dsimp only
  split
  · next chosen => exact (tagged _).plain (bare chosen nofun) _ _ _
  · next chosen => exact (tagged _).singleQuoted (bare chosen nofun) _ _
  · exact (tagged _).doubleQuoted _ _ t
  · next chosen => exact (tagged _).literal (bare chosen nofun) _

end Page

/-! ## Nodes -/

variable {p : Page}

mutual

theorem Drawing.allWritten_write (anchors : Anchors) :
    (d : Drawing) → (column : Option Nat) → (position : Position) → {p : Page} → p.AllWritten →
      (d.write anchors column position p).AllWritten
  | .again place, _, _, _, page => page.anchor (by decide) anchors (some place)
  | .scalar place tag t lines, _, position, _, page => by
    rw [Drawing.write]
    exact (page.anchor (by decide) anchors place).scalar _ position tag t lines
  | .sequence place items, column, position, _, page => by
    have anchored := page.anchor (x := 38) (by decide) anchors place
    unfold Drawing.write
    dsimp only
    split
    · exact (anchored.mark (by decide) true true false).mark (by decide) false false false
    · exact Drawing.allWritten_writeItems anchors items _ anchored
  | .mapping place tag entries, column, position, _, page => by
    have anchored := page.anchor (x := 38) (by decide) anchors place
    have tagged (p : Page) (page : p.AllWritten) :
        (if tag = .mapping then p else p.tag tag).AllWritten := by
      split
      · exact page
      · exact page.tag tag
    rw [Drawing.write]
    split
    · exact ((tagged _ anchored).mark (by decide) true true false).mark (by decide) false false false
    · exact Drawing.allWritten_writeEntries anchors entries _ (tagged _ anchored)

theorem Drawing.allWritten_writeItems (anchors : Anchors) :
    (items : List Drawing) → (column : Nat) → {p : Page} → p.AllWritten →
      (Drawing.writeItems anchors column items p).AllWritten
  | [], _, _, page => page
  | item :: rest, column, _, page => by
    have hyphen := (page.indent column).mark (x := 45) (by decide) true false true
    have first := Drawing.allWritten_write anchors item (some column) ⟨false, false, false⟩ hyphen
    exact Drawing.allWritten_writeItems anchors rest column first

theorem Drawing.allWritten_writeEntries (anchors : Anchors) :
    (entries : List (Drawing × Drawing)) → (column : Nat) → {p : Page} → p.AllWritten →
      (Drawing.writeEntries anchors column entries p).AllWritten
  | [], _, _, page => page
  | (key, value) :: rest, column, _, page => by
    have behindKey {q : Page} (page : q.AllWritten) := Drawing.allWritten_writeEntries anchors rest
      column (Drawing.allWritten_write anchors value (some column) ⟨false, true, false⟩ page)
    have start := page.indent column
    rw [Drawing.writeEntries]
    dsimp only
    split
    · have written := Drawing.allWritten_write anchors key (some column) ⟨false, true, true⟩ start
      exact behindKey (written.mark (by decide) false false false)
    · have question := start.mark (x := 63) (by decide) true false true
      have written :=
        Drawing.allWritten_write anchors key (some column) ⟨false, true, false⟩ question
      exact behindKey ((written.indent column).mark (by decide) true false true)

end

/-- A document has no other characters than those that may stand in a text that is read. -/
theorem Drawing.allWritten_document (d : Drawing) : AllWritten d.document := by
  have written (anchors : Anchors) :
      ((d.write anchors none ⟨true, false, false⟩ Page.blank).indent 0).AllWritten :=
    (d.allWritten_write anchors none ⟨true, false, false⟩ Page.allWritten_blank).indent 0
  unfold Drawing.document
  dsimp only
  split
  · have points : AllWritten (text "...") := allWritten_basic (by decide)
    exact (((written _).indicator points true false false).indent 0).reverse
  · exact (written _).reverse

end SwaggerDoc.Yaml
