import SwaggerDoc.Fault

/-!
Files and directories, as a run of the command line finds and leaves them.

A path is followed step by step from the directory in which the run takes place, or from the root of
all files. A step out of a directory leads to the directory around it, and one out of the root leads
nowhere. Of the directories around the one in which the run takes place nothing is known but that
they are there. A name can be looked up as it is written, or as a path, which leaves out the steps
that stay where they are.
-/

namespace SwaggerDoc

/-- A path, without the steps that lead nowhere. -/
structure Path where
  /-- The slashes in front. -/
  root : Text
  parts : List Text
  deriving DecidableEq, Repr

namespace Path

/-- The slashes in front of a path that count: one, or exactly two. -/
def rootOf (t : Text) : Text :=
  match (t.takeWhile (· == 47)).length with
  | 0 => []
  | 2 => [47, 47]
  | _ => [47]

/-- The path that a text names. -/
def of (t : Text) : Path :=
  ⟨rootOf t, (Text.split 47 t).filter fun part => !part.isEmpty && part != [46]⟩

/-- The path as a text. -/
def shown (p : Path) : Text :=
  if p.root.isEmpty && p.parts.isEmpty then [46] else p.root ++ Text.join [47] p.parts

/-- The path of the directory around. -/
def parent (p : Path) : Path := { p with parts := p.parts.dropLast }

/-- The steps that a text names, also those that stay where they are. They too need a directory to
stay in, and so does a slash at the end. -/
def stepsOf (t : Text) : List Text :=
  (Text.split 47 t).filter (!·.isEmpty) ++ (if t.getLast? = some 47 then [[46]] else [])

/-- The most octets in a step. -/
def longestStep : Nat := 255

/-- The most octets in a path. -/
def longest : Nat := 4095

/-- The octets of a text in the name of a file. Some surrogate halves stand for octets that are no
characters; the others have none. -/
def octets? : Text → Option Octets
  | [] => some []
  | c :: rest => do
    let first ← if 0xDC80 ≤ c && c ≤ 0xDCFF then some [c - 0xDC00] else Octets.ofCodePoint? c
    let more ← octets? rest
    return first ++ more

/-- How many octets a text takes. -/
def octetCount (t : Text) : Nat := ((octets? t).getD t).length

/-- Whether a text has octets, as the name of a file must. -/
def isNameable (t : Text) : Bool := (octets? t).isSome

end Path

/-- A directory, or a file with its content. -/
inductive FileEntry where
  | directory
  | file (content : Octets)
  deriving DecidableEq, Repr

/-- The steps to an entry. Steps from the root of all files begin with a slash of their own, and the
steps out of the directory in which the run takes place come before all others. -/
abbrev Location := List Text

namespace Location

/-- The step out of a directory. -/
def out : Text := [46, 46]

/-- Whether a location is the directory in which the run takes place or one around it. -/
def isAround (l : Location) : Bool := l.all (· == out)

/-- The location of the directory around a location. The root is around itself. -/
def around (l : Location) : Location :=
  if l = [[47]] then l else if isAround l then l ++ [out] else l.dropLast

end Location

/-- The entries by their locations, apart from the starting points and the directories around
them. -/
structure FileTree where
  entries : List (Location × FileEntry)
  deriving DecidableEq, Repr

namespace FileTree

/-- Nothing but the starting points. -/
def empty : FileTree := ⟨[]⟩

/-- What stands at a location. -/
def entry? (t : FileTree) (l : Location) : Option FileEntry :=
  if Location.isAround l || l = [[47]] then some .directory else t.entries.lookup l

/-- Puts an entry at a location, in the place of the one that stands there. -/
def put (t : FileTree) (l : Location) (e : FileEntry) : FileTree :=
  if t.entries.any (·.1 == l) then
    ⟨t.entries.map fun entry => if entry.1 = l then (l, e) else entry⟩
  else ⟨t.entries ++ [(l, e)]⟩

/-- Why a path cannot be followed. -/
inductive Obstacle where
  /-- A directory on the way does not exist. -/
  | missing
  /-- A file stands in the place of a directory on the way. -/
  | file
  /-- The path or a step on the way is longer than any that exists. -/
  | tooLong
  deriving DecidableEq, Repr

/-- The location that a single step leads to. -/
def stepFrom (l : Location) (step : Text) : Except Obstacle Location :=
  if step = [46] then .ok l
  else if step = Location.out then .ok (Location.around l)
  else if Path.octetCount step > Path.longestStep then .error .tooLong
  else .ok (l ++ [step])

/-- Follows steps from a location. What stands at the end need not exist. -/
def follow (t : FileTree) (l : Location) : List Text → Except Obstacle Location
  | [] => .ok l
  | step :: rest =>
    match t.entry? l with
    | none => .error .missing
    | some (.file _) => .error .file
    | some .directory =>
      match stepFrom l step with
      | .error o => .error o
      | .ok l => follow t l rest

/-- Follows the steps of a path that is written as `shown`. -/
def followFrom (t : FileTree) (root shown : Text) (steps : List Text) :
    Except Obstacle Location :=
  if Path.octetCount shown > Path.longest then .error .tooLong
  else t.follow (if root.isEmpty then [] else [[47]]) steps

/-- The location that a path leads to. -/
def locate (t : FileTree) (p : Path) : Except Obstacle Location :=
  t.followFrom p.root p.shown p.parts

/-- What a text names, followed as it is written, if there is anything. A text without octets or
with a NUL in it cannot be looked up, and an empty text names nothing. -/
def lookUp (t : FileTree) (name : Text) : Except Fault (Option FileEntry) :=
  if !Path.isNameable name then .error .notEncodable
  else if name.contains 0 then .error .badValue
  else if name.isEmpty then .ok none
  else match t.followFrom (Path.rootOf name) name (Path.stepsOf name) with
    | .ok l => .ok (t.entry? l)
    | .error _ => .ok none

/-- Why a file cannot be read, as its number and its words. -/
def obstacleMessage (number : Nat) (words : String) (p : Path) : Text :=
  text "[Errno " ++ Text.ofNat number ++ text "] " ++ text words ++ text ": "
    ++ Text.quoted p.shown

/-- The content of a file, or the message that says why it cannot be read. -/
def read (t : FileTree) (p : Path) : Except Text Octets :=
  let missing := obstacleMessage 2 "No such file or directory" p
  match t.locate p with
  | .error .missing => .error missing
  | .error .file => .error (obstacleMessage 20 "Not a directory" p)
  | .error .tooLong => .error (obstacleMessage 36 "File name too long" p)
  | .ok l =>
    match t.entry? l with
    | none => .error missing
    | some .directory => .error (obstacleMessage 21 "Is a directory" p)
    | some (.file content) => .ok content

/-- Makes the directory after the first `n` steps of a path if nothing is there. `t` is what there
was before any directory was made: a file in the way counts as a place already taken once a
directory was made, and behind the last step in any case. -/
def makeDirectory (t made : FileTree) (p : Path) (n : Nat) : Except Fault FileTree :=
  match made.locate { p with parts := p.parts.take n } with
  | .error .missing => .ok made
  | .error .file => .error .notDirectory
  | .error .tooLong => .error .nameTooLong
  | .ok l =>
    match made.entry? l with
    | some .directory => .ok made
    | some (.file _) =>
      .error (if n = p.parts.length || made != t then .fileExists else .notDirectory)
    | none => .ok (made.put l .directory)

/-- Makes directories on a path one after the other, up to the first that cannot be made. -/
def makeEach (t : FileTree) (p : Path) (made : FileTree) : List Nat → FileTree × Option Fault
  | [] => (made, none)
  | n :: rest =>
    match t.makeDirectory made p n with
    | .error f => (made, some f)
    | .ok made => makeEach t p made rest

/-- Makes the directories on a path that do not exist, from the outermost inward. Those made before
one cannot be made stay. -/
def withDirectories (t : FileTree) (p : Path) : FileTree × Option Fault :=
  t.makeEach p t ((List.range p.parts.length).map (· + 1))

/-- Makes the directories on a path, all of them or none. -/
def makeDirectories (t : FileTree) (p : Path) : Except Fault FileTree :=
  match t.withDirectories p with
  | (made, none) => .ok made
  | (_, some f) => .error f

/-- Writes a file into a directory that exists. -/
def write (t : FileTree) (p : Path) (content : Octets) : Except Fault FileTree :=
  match t.locate p with
  | .error .tooLong => .error .nameTooLong
  | .error _ => .error .notDirectory
  | .ok l =>
    if t.entry? l = some .directory then .error .isDirectory else .ok (t.put l (.file content))

end FileTree

end SwaggerDoc
