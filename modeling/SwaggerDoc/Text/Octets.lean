import SwaggerDoc.Text.Basic

/-!
Texts as octets: UTF-8 in both directions, with the place and the reason where octets stop being
a text, and the six-bit alphabet in which binary values are written.
-/

namespace SwaggerDoc

/-- A sequence of octets, each a number below 256. -/
abbrev Octets := List Nat

namespace Octets

/-- Why octets are not a text. -/
inductive Reason where
  /-- An octet that begins no character. -/
  | start
  /-- An octet that should have continued a character and cannot. -/
  | continuation
  /-- The octets end inside a character. -/
  | truncated
  deriving DecidableEq, Repr

/-- The first place at which octets are not a text: the position, the octet there, and the number
of octets that are at fault together. -/
structure Malformed where
  position : Nat
  octet : Nat
  count : Nat
  reason : Reason
  deriving DecidableEq, Repr

/-- What a first octet promises: how many more octets follow, the least and the greatest value of
the first of them, and the bits that the first octet itself contributes. -/
structure Lead where
  more : Nat
  least : Nat
  greatest : Nat
  bits : Nat

/-- The characters begin with one of these octets. The bounds on the second octet exclude forms
longer than needed, surrogate halves, and numbers above the last character. -/
def lead? (octet : Nat) : Option Lead :=
  if octet < 0x80 then some ⟨0, 0, 0, octet⟩
  else if octet < 0xC2 then none
  else if octet < 0xE0 then some ⟨1, 0x80, 0xBF, octet - 0xC0⟩
  else if octet = 0xE0 then some ⟨2, 0xA0, 0xBF, 0⟩
  else if octet = 0xED then some ⟨2, 0x80, 0x9F, 0xD⟩
  else if octet < 0xF0 then some ⟨2, 0x80, 0xBF, octet - 0xE0⟩
  else if octet = 0xF0 then some ⟨3, 0x90, 0xBF, 0⟩
  else if octet < 0xF4 then some ⟨3, 0x80, 0xBF, octet - 0xF0⟩
  else if octet = 0xF4 then some ⟨3, 0x80, 0x8F, 4⟩
  else none

/-- What is under way while octets are read. -/
inductive Progress where
  /-- Between two characters. -/
  | between
  /-- Inside a character: the octet it began with, the octets read so far, the octets still owed,
  the bounds of the next one, and the bits collected. -/
  | within (octet read owed least greatest bits : Nat)

/-- Reads octets from a position onward; the characters read so far come in reverse. -/
def decodeFrom (position : Nat) (progress : Progress) (done : Text) :
    Octets → Except Malformed Text
  | [] =>
    match progress with
    | .between => .ok done.reverse
    | .within octet read _ _ _ _ => .error ⟨position - read, octet, read, .truncated⟩
  | o :: rest =>
    match progress with
    | .between =>
      match lead? o with
      | none => .error ⟨position, o, 1, .start⟩
      | some l =>
        if l.more = 0 then decodeFrom (position + 1) .between (l.bits :: done) rest
        else
          decodeFrom (position + 1) (.within o 1 l.more l.least l.greatest l.bits) done rest
    | .within octet read owed least greatest bits =>
      if least ≤ o && o ≤ greatest then
        let bits := bits * 64 + (o - 0x80)
        if owed = 1 then decodeFrom (position + 1) .between (bits :: done) rest
        else
          decodeFrom (position + 1) (.within octet (read + 1) (owed - 1) 0x80 0xBF bits) done rest
      else .error ⟨position - read, octet, read, .continuation⟩

/-- The text that octets encode, or the first place where they encode none. -/
def decode (octets : Octets) : Except Malformed Text := decodeFrom 0 .between [] octets

/-- The message for octets that are not a text. -/
def Malformed.message (m : Malformed) : Text :=
  let place :=
    if m.count = 1 then
      text "byte 0x" ++ Text.hex 2 m.octet ++ text " in position " ++ Text.ofNat m.position
    else
      text "bytes in position " ++ Text.ofNat m.position ++ text "-"
        ++ Text.ofNat (m.position + m.count - 1)
  let reason := match m.reason with
    | .start => "invalid start byte"
    | .continuation => "invalid continuation byte"
    | .truncated => "unexpected end of data"
  text "'utf-8' codec can't decode " ++ place ++ text ": " ++ text reason

/-- The octets of one character; a surrogate half has none. -/
def ofCodePoint? (c : CodePoint) : Option Octets :=
  if c < 0x80 then some [c]
  else if c < 0x800 then some [0xC0 + c / 64, 0x80 + c % 64]
  else if Text.isSurrogate c then none
  else if c < 0x10000 then some [0xE0 + c / 4096, 0x80 + c / 64 % 64, 0x80 + c % 64]
  else if c < 0x110000 then
    some [0xF0 + c / 262144, 0x80 + c / 4096 % 64, 0x80 + c / 64 % 64, 0x80 + c % 64]
  else none

/-- The octets that encode a text, if it holds characters only. -/
def encode? : Text → Option Octets
  | [] => some []
  | c :: rest => do
    let first ← ofCodePoint? c
    let more ← encode? rest
    return first ++ more

end Octets

/-! ## Binary values in the basic alphabet -/

namespace Base64

/-- The letter for six bits. -/
def letter (n : Nat) : CodePoint :=
  if n < 26 then 65 + n
  else if n < 52 then 71 + n
  else if n < 62 then n - 4
  else if n = 62 then 43
  else 47

/-- The six bits of a letter. -/
def bits? (c : CodePoint) : Option Nat :=
  if 65 ≤ c && c ≤ 90 then some (c - 65)
  else if 97 ≤ c && c ≤ 122 then some (c - 71)
  else if 48 ≤ c && c ≤ 57 then some (c + 4)
  else if c = 43 then some 62
  else if c = 47 then some 63
  else none

/-- Octets three by three in four letters each, the last group filled with `=`. -/
def encode : Octets → Text
  | [] => []
  | [a] => [letter (a / 4), letter (a % 4 * 16), 61, 61]
  | [a, b] => [letter (a / 4), letter (a % 4 * 16 + b / 16), letter (b % 16 * 4), 61]
  | a :: b :: c :: rest =>
    letter (a / 4) :: letter (a % 4 * 16 + b / 16) :: letter (b % 16 * 4 + c / 64)
      :: letter (c % 64) :: encode rest

/-- Letters in lines of at most `width`, each ended by a line break. The first argument bounds the
number of lines. -/
def lines (width : Nat) : Nat → Text → Text
  | _, [] => []
  | 0, t => t
  | n + 1, t => t.take width ++ 10 :: lines width n (t.drop width)

/-- Octets in lines of 76 letters. -/
def encodeLines (octets : Octets) : Text :=
  let letters := encode octets
  lines 76 letters.length letters

/-- Reads letters into octets. The place in the current group of four and the bits left over from
it come first, then the number of `=` since the last letter. Characters outside the alphabet are
passed over, a `=` in the first half of a group too; a filled group ends the value. -/
def decodeFrom (place left fills : Nat) (done : Octets) : Text → Option Octets
  | [] => if place = 0 then some done.reverse else none
  | c :: rest =>
    if c = 61 then
      if 2 ≤ place && 4 ≤ place + fills + 1 then some done.reverse
      else decodeFrom place left (if 2 ≤ place then fills + 1 else fills) done rest
    else match bits? c with
      | none => decodeFrom place left fills done rest
      | some n =>
        match place with
        | 0 => decodeFrom 1 n 0 done rest
        | 1 => decodeFrom 2 (n % 16) 0 ((left * 4 + n / 16) :: done) rest
        | 2 => decodeFrom 3 (n % 4) 0 ((left * 16 + n / 4) :: done) rest
        | _ => decodeFrom 0 0 0 ((left * 64 + n) :: done) rest

/-- The octets that letters write, unless the last group of four is incomplete. -/
def decode? (t : Text) : Option Octets := decodeFrom 0 0 0 [] t

end Base64

end SwaggerDoc
