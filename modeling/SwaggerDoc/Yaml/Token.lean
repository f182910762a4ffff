import SwaggerDoc.Yaml.Lexeme.Block
import SwaggerDoc.Yaml.Lexeme.Plain
import SwaggerDoc.Yaml.Lexeme.Property
import SwaggerDoc.Yaml.Lexeme.Quoted

/-!
Texts as sequences of tokens.

Outside brackets, blocks are told apart by the columns in which they begin. A key is recognised
only at the colon behind it, so what could be a key is remembered by its position among the tokens,
and at the colon the token for a key, and for the beginning of a mapping, is put in at that
position. A key in front of a colon stands on one line and has at most 1024 characters.
-/

namespace SwaggerDoc.Yaml

/-- The smallest parts of a text that have a meaning of their own. -/
inductive Token where
  | directive (d : Directive)
  | documentStart
  | documentEnd
  | blockSequence
  | blockMapping
  | blockEnd
  | flowSequence
  | flowSequenceEnd
  | flowMapping
  | flowMappingEnd
  /-- The comma between the parts of a collection between brackets. -/
  | comma
  /-- The hyphen in front of an item. -/
  | item
  | key
  | value
  | alias (name : Text)
  | anchor (name : Text)
  | tag (t : TagName)
  | scalar (plain : Bool) (t : Text)
  deriving DecidableEq, Repr

/-- The tokens of a text up to its end, or up to a problem. -/
structure Tokens where
  tokens : List Token
  problem : Option Problem

/-- What could turn out to be a key. -/
structure Candidate where
  /-- Its position among the tokens. -/
  position : Nat
  /-- It has to be a key, because the block around it holds entries in that column. -/
  needed : Bool
  index : Nat
  line : Nat
  column : Nat

/-- How far the tokens of a text have been found. -/
structure Scan where
  cursor : Cursor
  /-- The tokens found, the last one first. -/
  reversed : List Token
  count : Nat
  /-- The columns of the blocks around the place, the innermost first. -/
  blocks : List Nat
  /-- Whether a key could begin here. -/
  keyAllowed : Bool
  /-- What could be a key in the innermost collection. -/
  candidate : Option Candidate
  /-- The same for the collections around it; there is one entry for each pair of brackets. -/
  outer : List (Option Candidate)

namespace Scan

/-- The beginning of a text. -/
def start (t : Text) : Scan := ⟨.start t, [], 0, [], true, none, []⟩

/-- Whether the place is between brackets. -/
def inFlow (s : Scan) : Bool := !s.outer.isEmpty

/-- The first column inside the innermost block. -/
def margin (s : Scan) : Nat :=
  match s.blocks with
  | [] => 0
  | column :: _ => column + 1

/-- Adds a token. -/
def emit (s : Scan) (t : Token) : Scan :=
  { s with reversed := t :: s.reversed, count := s.count + 1 }

/-- Puts a token in at a position. -/
def insertAt (s : Scan) (position : Nat) (t : Token) : Scan :=
  let behind := s.count - position
  { s with
    reversed := s.reversed.take behind ++ t :: s.reversed.drop behind
    count := s.count + 1 }

/-- Moves on. -/
def goTo (s : Scan) (c : Cursor) : Scan := { s with cursor := c }

/-- Allows a key, or not. -/
def allowKey (s : Scan) (allowed : Bool) : Scan := { s with keyAllowed := allowed }

/-- Ends the blocks that begin behind a column. -/
def closeBlocks (s : Scan) (inside : Nat → Bool) : Scan :=
  let ended := (s.blocks.takeWhile fun column => !inside column).length
  { s with
    reversed := List.replicate ended .blockEnd ++ s.reversed
    count := s.count + ended
    blocks := s.blocks.drop ended }

/-- Ends all blocks. -/
def closeAll (s : Scan) : Scan := if s.inFlow then s else s.closeBlocks fun _ => false

/-- Gives up what could have been a key; that is a problem if it had to be one. -/
def dropCandidate (s : Scan) : Except Problem Scan :=
  if s.candidate.any (·.needed) then .error .malformed else .ok { s with candidate := none }

/-- Remembers what comes next as a possible key, if a key may begin here. -/
def proposeKey (s : Scan) : Except Problem Scan :=
  if s.keyAllowed then do
    let s ← s.dropCandidate
    let c := s.cursor
    let needed := !s.inFlow && s.margin == c.column + 1
    return { s with candidate := some ⟨s.count, needed, c.index, c.line, c.column⟩ }
  else .ok s

/-- The longest key in front of a colon. -/
def longestCandidate : Nat := 1024

/-- Whether something cannot be a key any more. -/
def isStale (c : Cursor) (k : Candidate) : Bool :=
  k.line != c.line || c.index - k.index > longestCandidate

/-- Gives up what cannot be a key any more. -/
def dropStale (s : Scan) : Except Problem Scan :=
  let fresh (k : Option Candidate) : Option Candidate := k.filter (!isStale s.cursor ·)
  let lost := (s.candidate :: s.outer).any fun k => k.any fun k => isStale s.cursor k && k.needed
  if lost then .error .malformed
  else .ok { s with candidate := fresh s.candidate, outer := s.outer.map fresh }

/-- Passes blanks, comments and line ends. The first argument bounds their number. A key can begin
on a new line outside brackets. -/
def passBlanks : Nat → Scan → Scan
  | 0, s => s
  | n + 1, s =>
    let c := s.cursor.skipSpaces.skipComment
    match c.lineBreak? with
    | none => s.goTo c
    | some (_, c) => passBlanks n ((s.goTo c).allowKey (s.keyAllowed || !s.inFlow))

/-- Goes to the next token, and ends the blocks that do not reach so far. -/
def settle (s : Scan) : Except Problem Scan := do
  let s :=
    if s.cursor.index = 0 && s.cursor.peek = 0xFEFF then s.goTo s.cursor.next else s
  let s ← (passBlanks (s.cursor.rest.length + 1) s).dropStale
  return if s.inFlow then s else s.closeBlocks (· ≤ s.cursor.column)

/-- Begins a block in a column, unless the innermost one begins there. -/
def openBlock (s : Scan) (column : Nat) : Scan × Bool :=
  if s.margin ≤ column then ({ s with blocks := column :: s.blocks }, true) else (s, false)

/-- A token of one character. -/
def single (s : Scan) (t : Token) : Scan := (s.goTo s.cursor.next).emit t

/-- A directive. -/
def directive (s : Scan) : Except Problem Scan := do
  let s ← s.closeAll.dropCandidate
  let (d, c) ← Lexeme.directive s.cursor.next
  return ((s.allowKey false).goTo c).emit (.directive d)

/-- A line that marks the bounds of a document. -/
def documentMark (s : Scan) (t : Token) : Except Problem Scan := do
  let s ← s.closeAll.dropCandidate
  return ((s.allowKey false).goTo (s.cursor.advance 3)).emit t

/-- A bracket that begins a collection. -/
def openFlow (s : Scan) (t : Token) : Except Problem Scan := do
  let s ← s.proposeKey
  return ({ s with outer := s.candidate :: s.outer, candidate := none }.allowKey true).single t

/-- A bracket that ends a collection. -/
def closeFlow (s : Scan) (t : Token) : Except Problem Scan := do
  let s ← s.dropCandidate
  match s.outer with
  | [] => throw .malformed
  | k :: outer => return ({ s with candidate := k, outer }.allowKey false).single t

/-- A comma between brackets; outside them nothing may begin so. -/
def comma (s : Scan) : Except Problem Scan := do
  return ((← s.dropCandidate).allowKey true).single .comma

/-- Outside brackets, a block begins in the column where an indicator stands, which is where a key
could begin. -/
def openBlockHere (s : Scan) (t : Token) : Except Problem Scan :=
  if s.inFlow then .ok s
  else if !s.keyAllowed then .error .malformed
  else
    let (s, opened) := s.openBlock s.cursor.column
    .ok (if opened then s.emit t else s)

/-- The hyphen in front of an item. -/
def item (s : Scan) : Except Problem Scan := do
  let s ← s.openBlockHere .blockSequence
  return ((← s.dropCandidate).allowKey true).single .item

/-- The question mark in front of a key. -/
def key (s : Scan) : Except Problem Scan := do
  let s ← s.openBlockHere .blockMapping
  return ((← s.dropCandidate).allowKey !s.inFlow).single .key

/-- The colon in front of a value. What could be a key in front of it is one. -/
def value (s : Scan) : Except Problem Scan :=
  match s.candidate with
  | some k =>
    let s := { s with candidate := none }.insertAt k.position .key
    let (s, opened) := if s.inFlow then (s, false) else s.openBlock k.column
    let s := if opened then s.insertAt k.position .blockMapping else s
    .ok ((s.allowKey false).single .value)
  | none => do
    let s ← s.openBlockHere .blockMapping
    return (s.allowKey !s.inFlow).single .value

/-- A token that could begin a key. -/
def lexeme (s : Scan) (read : Cursor → Except Problem (Token × Cursor)) :
    Except Problem Scan := do
  let s ← s.proposeKey
  let (t, c) ← read s.cursor
  return ((s.allowKey false).goTo c).emit t

/-- A scalar without quotes. -/
def plain (s : Scan) : Except Problem Scan := do
  let s ← s.proposeKey
  let p := Lexeme.plain s.inFlow s.margin s.cursor
  return ((s.allowKey p.brokeLine).goTo p.cursor).emit (.scalar true p.found)

/-- A scalar in lines of its own. -/
def block (s : Scan) (folds : Bool) : Except Problem Scan := do
  let s ← s.dropCandidate
  let (t, c) ← Lexeme.block folds s.margin s.cursor.next
  return ((s.allowKey true).goTo c).emit (.scalar false t)

/-- The next token, by the character that it begins with. -/
def step (s : Scan) : Except Problem Scan :=
  let c := s.cursor
  let separated := isSeparator (c.peekAt 1)
  let x := c.peek
  if x = 37 && c.column = 0 then s.directive
  else if c.atMark 45 then s.documentMark .documentStart
  else if c.atMark 46 then s.documentMark .documentEnd
  else if x = 91 then s.openFlow .flowSequence
  else if x = 123 then s.openFlow .flowMapping
  else if x = 93 then s.closeFlow .flowSequenceEnd
  else if x = 125 then s.closeFlow .flowMappingEnd
  else if x = 44 then s.comma
  else if x = 45 && separated then s.item
  else if x = 63 && (s.inFlow || separated) then s.key
  else if x = 58 && (s.inFlow || separated) then s.value
  else if x = 42 then s.lexeme fun c => do
    let (name, c) ← Lexeme.anchorName c.next
    return (.alias name, c)
  else if x = 38 then s.lexeme fun c => do
    let (name, c) ← Lexeme.anchorName c.next
    return (.anchor name, c)
  else if x = 33 then s.lexeme fun c => do
    let (name, c) ← Lexeme.tagName c
    return (.tag name, c)
  else if (x = 124 || x = 62) && !s.inFlow then s.block (x = 62)
  else if x = 39 || x = 34 then s.lexeme fun c => do
    let (t, c) ← Lexeme.quoted x c
    return (.scalar false t, c)
  else if Lexeme.startsPlain s.inFlow c then s.plain
  else .error .malformed

/-- The end of the text. -/
def finish (s : Scan) : Except Problem Scan := s.closeAll.dropCandidate

/-- The tokens found. -/
def tokens (s : Scan) : Tokens := ⟨s.reversed.reverse, none⟩

/-- The tokens that are certain when a problem is met: those in front of what could still be a
key. -/
def stoppedBy (s : Scan) (p : Problem) : Tokens :=
  let open? := (s.candidate :: s.outer).filterMap fun k =>
    (k.filter (!isStale s.cursor ·)).map (·.position)
  ⟨s.reversed.reverse.take (open?.foldl min s.count), some p⟩

/-- The tokens from a place onward. The first argument bounds their number. -/
def run : Nat → Scan → Tokens
  | 0, s => s.stoppedBy .malformed
  | n + 1, s =>
    match s.settle with
    | .error p => s.stoppedBy p
    | .ok settled =>
      let next := if settled.cursor.atEnd then settled.finish else settled.step
      match next with
      | .error p => s.stoppedBy p
      | .ok next => if settled.cursor.atEnd then next.tokens else run n next

end Scan

/-- The tokens of a text. -/
def Tokens.of (t : Text) : Tokens := Scan.run (t.length + 1) (Scan.start t)

end SwaggerDoc.Yaml
