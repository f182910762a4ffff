import SwaggerDoc.Yaml.Drawing

/-!
Drawn values written out as YAML.

Blocks are indented by two columns, empty containers stand between brackets, and a list under a key
begins in the column of the key. Texts are folded at single spaces beyond column 80. An anchor marks
what is met again, and anchors are numbered in the order in which they are first needed.
-/

namespace SwaggerDoc.Yaml

/-- A page being written: what is on it in reverse, the column, whether a separator came last,
whether nothing but indentation and indicators stand on the line, and whether an unquoted text ended
the document. -/
structure Page where
  reversed : Text
  column : Nat
  separated : Bool
  indenting : Bool
  openEnded : Bool

namespace Page

/-- A page on which nothing is written. -/
def blank : Page := ⟨[], 0, true, true, false⟩

/-- The column beyond which texts are folded. -/
def width : Nat := 80

/-- Writes characters of one line. -/
def put (p : Page) (t : Text) : Page :=
  { p with reversed := t.reverse ++ p.reversed, column := p.column + t.length }

/-- Ends the line by a character. -/
def endLineBy (p : Page) (c : CodePoint) : Page :=
  { p with reversed := c :: p.reversed, column := 0, separated := true, indenting := true }

/-- Ends the line. -/
def endLine (p : Page) : Page := p.endLineBy 10

/-- Goes to the given column, on a new line if something else is on this one. -/
def indent (p : Page) (column : Nat) : Page :=
  let p :=
    if !p.indenting || p.column > column || (p.column == column && !p.separated) then p.endLine
    else p
  if p.column < column then
    { p.put (List.replicate (column - p.column) 32) with separated := true }
  else p

/-- Writes an indicator, behind a space if it needs one and nothing separates it. `opens` says that
it separates what follows, `indents` that it counts as indentation. -/
def indicator (p : Page) (t : Text) (spaced opens indents : Bool) : Page :=
  let p := if p.separated || !spaced then p.put t else p.put (32 :: t)
  { p with separated := opens, indenting := p.indenting && indents, openEnded := false }

/-- What comes next stands in the middle of a text. -/
def inText (p : Page) : Page := { p with separated := false, indenting := false }

end Page

/-! ## Scalars -/

/-- A piece of a scalar. -/
inductive Piece where
  | spaces (count : Nat)
  | breaks (t : Text)
  | word (t : Text)
  deriving Repr

/-- A scalar in pieces: runs of spaces, runs of line breaks, and what is between them. -/
def pieces : Text → List Piece
  | [] => []
  | c :: rest =>
    match pieces rest with
    | .spaces n :: more => if c = 32 then .spaces (n + 1) :: more else single c (.spaces n :: more)
    | .breaks t :: more =>
      if isBreak c then .breaks (c :: t) :: more else single c (.breaks t :: more)
    | .word t :: more =>
      if c = 32 || isBreak c then single c (.word t :: more) else .word (c :: t) :: more
    | [] => single c []
where
  single (c : CodePoint) (more : List Piece) : List Piece :=
    (if c = 32 then .spaces 1 else if isBreak c then .breaks [c] else .word [c]) :: more

namespace Page

/-- Writes pieces. A single space between two others is where a line beyond the width is folded, if
`folds` allows it; `word` spells what is between spaces. `first` says that nothing of the scalar is
written yet. -/
def pieces (column : Nat) (folds : Bool) (word : Text → Text) :
    Bool → List Piece → Page → Page
  | _, [], p => p
  | first, .spaces n :: rest, p =>
    let p :=
      if n = 1 && p.column > width && folds && !first && !rest.isEmpty then
        p.indent column
      else p.put (List.replicate n 32)
    pieces column folds word false rest p
  | _, .breaks t :: rest, p =>
    let p := if t.head? = some 10 then p.endLine else p
    pieces column folds word false rest ((t.foldl endLineBy p).indent column)
  | _, .word t :: rest, p => pieces column folds word false rest (p.put (word t))

/-- Writes a scalar as it is. At the root of a document it leaves the end of the document open. -/
def plain (p : Page) (column : Nat) (folds root : Bool) (t : Text) : Page :=
  let p := if root then { p with openEnded := true } else p
  if t.isEmpty then p
  else
    let p := if p.separated then p else p.put [32]
    (pieces column folds id true (Yaml.pieces t) p.inText).inText

/-- Writes a scalar between single quotes; a quote inside is written twice. -/
def singleQuoted (p : Page) (column : Nat) (folds : Bool) (t : Text) : Page :=
  let double (t : Text) : Text := t.flatMap fun c => if c = 39 then [39, 39] else [c]
  (pieces column folds double true (Yaml.pieces t) (p.indicator [39] true false false)).indicator
    [39] false false false

/-- Hexadecimal digits in capitals. -/
def capitalHex (digits n : Nat) : Text :=
  (Text.hex digits n).map fun c => if 97 ≤ c then c - 32 else c

/-- Whether a character needs an escape between double quotes. -/
def needsEscape (c : CodePoint) : Bool :=
  c == 34 || c == 92 || c == 0x85 || c == 0x2028 || c == 0x2029 || c == 0xFEFF
    || !((0x20 ≤ c && c ≤ 0x7E) || (0xA0 ≤ c && c ≤ 0xD7FF) || (0xE000 ≤ c && c ≤ 0xFFFD))

/-- A character behind a backslash: by its letter, or by its number. -/
def escape (c : CodePoint) : Text :=
  92 :: match escapeLetters.lookup c with
    | some letter => [letter]
    | none =>
      if c ≤ 0xFF then 120 :: capitalHex 2 c
      else if c ≤ 0xFFFF then 117 :: capitalHex 4 c
      else 85 :: capitalHex 8 c

/-- Writes what stands between double quotes. Characters wait until an escape or a fold is due; a
line beyond the width is folded at a space or an escape, by a backslash at its end, and a space at
the start of the next line is escaped too. -/
def doubleQuotedFrom (column : Nat) (folds : Bool) : (waiting : Text) → (first : Bool) →
    Text → Page → Page
  | waiting, _, [], p => p.put waiting.reverse
  | waiting, first, c :: rest, p =>
    let escaped := needsEscape c
    let p := if escaped then (p.put waiting.reverse).put (escape c) else p
    let waiting := if escaped then [] else waiting
    let due := p.column + waiting.length > if escaped then width + 1 else width
    if folds && !first && !rest.isEmpty && (c = 32 || waiting.isEmpty) && due then
      let p := ((p.put (waiting.reverse ++ [92])).indent column).inText
      let next := if escaped then rest.head?.getD 0 else c
      let p := if next = 32 then p.put [92] else p
      doubleQuotedFrom column folds (if escaped then [] else [c]) false rest p
    else
      doubleQuotedFrom column folds (if escaped then [] else c :: waiting) false rest p

/-- Writes a scalar between double quotes. -/
def doubleQuoted (p : Page) (column : Nat) (folds : Bool) (t : Text) : Page :=
  (doubleQuotedFrom column folds [] true t (p.indicator [34] true false false)).indicator
    [34] false false false

/-- What is said in front of a scalar of its own lines: where it is indented by more than its first
line shows, and how its last line break counts. -/
def blockHints (t : Text) : Text :=
  match t with
  | [] => []
  | first :: _ =>
    let endsLine (t : Text) : Bool := t.getLast?.any isBreak
    (if first = 32 || isBreak first then [50] else [])
      ++ if !endsLine t then [45]
        else if t.length = 1 || endsLine t.dropLast then [43]
        else []

/-- The lines of a scalar, one after the other. -/
def literalLines (column : Nat) : List Piece → Page → Page
  | [], p => p
  | .breaks t :: rest, p => literalLines column rest (t.foldl endLineBy p)
  | .spaces n :: rest, p => literalLines column rest (line (List.replicate n 32) rest p)
  | .word t :: rest, p => literalLines column rest (line t rest p)
where
  line (t : Text) (rest : List Piece) (p : Page) : Page :=
    let p := if p.column = 0 then p.indent column else p
    let p := { p with reversed := t.reverse ++ p.reversed }
    if rest.isEmpty then p.endLine else p

/-- Writes a scalar as lines of its own. -/
def literal (p : Page) (column : Nat) (t : Text) : Page :=
  let hints := blockHints t
  let p := p.indicator (124 :: hints) true false false
  let p := { p with openEnded := hints.getLast? == some 43 }
  literalLines column (Yaml.pieces t) p.endLine

end Page

/-! ## Nodes -/

/-- The name of the anchor with a number. -/
def anchorName (n : Nat) : Text := text "id" ++ Text.padded 3 n

/-- Where anchors are needed: the number of an anchor is its place in the list, counted from
one. -/
abbrev Anchors := List Place

/-- The name of the anchor of a place, if it has one. -/
def Anchors.name? (anchors : Anchors) (place : Option Place) : Option Text :=
  (place.bind fun p => anchors.idxOf? p).map fun n => anchorName (n + 1)

/-- The longest key that is written in front of a colon. -/
def longestKey : Nat := 128

/-- Whether a node is written in front of a colon: on one line, and with its tag and anchor shorter
than 128 characters. -/
def Drawing.isSimpleKey (anchors : Anchors) (d : Drawing) : Bool :=
  let anchor (place : Option Place) : Nat := ((anchors.name? place).map List.length).getD 0
  match d with
  | .scalar place tag t _ =>
    !t.isEmpty && !t.any isBreak && anchor place + tag.short.length + t.length < longestKey
  | .sequence place items =>
    items.isEmpty && anchor place + (NodeTag.short .sequence).length < longestKey
  | .mapping place tag entries =>
    entries.isEmpty && anchor place + tag.short.length < longestKey
  | .again place => anchor (some place) < longestKey

/-- Where a node stands. -/
structure Position where
  root : Bool
  /-- Behind a key. -/
  inMapping : Bool
  /-- In front of a colon. -/
  key : Bool

namespace Page

/-- Writes an anchor, if there is one. -/
def anchor (p : Page) (mark : CodePoint) (name? : Option Text) : Page :=
  match name? with
  | none => p
  | some name => p.indicator (mark :: name) true false false

/-- Writes a tag. -/
def tag (p : Page) (tag : NodeTag) : Page := p.indicator tag.short true false false

/-- Writes a scalar in the style chosen for it. -/
def scalar (p : Page) (column : Nat) (position : Position) (tag : NodeTag) (t : Text)
    (lines : Bool) : Page :=
  let style := Style.choose tag t lines position.key
  let tagged := if style = .plain then Implicit.tag t != tag else tag != .string
  let p := if tagged then p.tag tag else p
  let folds := !position.key
  match style with
  | .plain => p.plain column folds position.root t
  | .singleQuoted => p.singleQuoted column folds t
  | .doubleQuoted => p.doubleQuoted column folds t
  | .literal => p.literal column t

end Page

mutual

/-- Writes a node. The column of the block around it is there unless it is the root. -/
def Drawing.write (anchors : Anchors) (column : Option Nat) (position : Position) :
    Drawing → Page → Page
  | .again place, p => p.anchor 42 (anchors.name? (some place))
  | .scalar place tag t lines, p =>
    (p.anchor 38 (anchors.name? place)).scalar ((column.map (· + 2)).getD 2) position tag t lines
  | .sequence place items, p =>
    let p := p.anchor 38 (anchors.name? place)
    if items.isEmpty then
      (p.indicator [91] true true false).indicator [93] false false false
    else
      let inner := match column with
        | none => 0
        | some c => if position.inMapping && !p.indenting then c else c + 2
      Drawing.writeItems anchors inner items p
  | .mapping place tag entries, p =>
    let p := p.anchor 38 (anchors.name? place)
    let p := if tag = .mapping then p else p.tag tag
    if entries.isEmpty then
      (p.indicator [123] true true false).indicator [125] false false false
    else Drawing.writeEntries anchors ((column.map (· + 2)).getD 0) entries p

/-- Writes the items of a list, each behind a hyphen. -/
def Drawing.writeItems (anchors : Anchors) (column : Nat) : List Drawing → Page → Page
  | [], p => p
  | item :: rest, p =>
    let p := (p.indent column).indicator [45] true false true
    Drawing.writeItems anchors column rest
      (item.write anchors (some column) ⟨false, false, false⟩ p)

/-- Writes the entries of a mapping, each key before a colon; a key that is not simple stands behind
a question mark. -/
def Drawing.writeEntries (anchors : Anchors) (column : Nat) :
    List (Drawing × Drawing) → Page → Page
  | [], p => p
  | (key, value) :: rest, p =>
    let p := p.indent column
    let p :=
      if key.isSimpleKey anchors then
        (key.write anchors (some column) ⟨false, true, true⟩ p).indicator [58] false false false
      else
        let p := p.indicator [63] true false true
        ((key.write anchors (some column) ⟨false, true, false⟩ p).indent column).indicator
          [58] true false true
    Drawing.writeEntries anchors column rest
      (value.write anchors (some column) ⟨false, true, false⟩ p)

end

/-- A drawing as a document. An unquoted text at the root is ended by a line of three points. -/
def Drawing.document (d : Drawing) : Text :=
  let anchors := d.references.foldl
    (fun found p => if found.contains p then found else found ++ [p]) []
  let p := (d.write anchors none ⟨true, false, false⟩ Page.blank).indent 0
  let p := if p.openEnded then (p.indicator (text "...") true false false).indent 0 else p
  p.reversed.reverse

end SwaggerDoc.Yaml
