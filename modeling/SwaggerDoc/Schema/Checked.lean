import SwaggerDoc.Number.Literal
import SwaggerDoc.Store.Equality
import SwaggerDoc.Store.Shown

/-!
Checking values against what a model admits.

A check accepts a value, often in a plainer form than it came in, or refuses it with issues. The
parts of a value are all checked and their issues gathered in order. A check itself can fail, and
then nothing else is looked at.
-/

namespace SwaggerDoc

/-- What a check comes to. -/
inductive Checked (α : Type) where
  | accepted (a : α)
  | refused (issues : List Issue)
  | failed (fault : Fault)
  deriving Repr

namespace Checked

variable {α β : Type}

/-- Changes what is accepted. -/
def map (f : α → β) : Checked α → Checked β
  | .accepted a => .accepted (f a)
  | .refused issues => .refused issues
  | .failed fault => .failed fault

/-- Checks two parts after each other; the issues of both are reported. -/
def both (x : Checked α) (y : Unit → Checked β) : Checked (α × β) :=
  match x with
  | .failed fault => .failed fault
  | .accepted a => (y ()).map fun b => (a, b)
  | .refused issues =>
    match y () with
    | .failed fault => .failed fault
    | .accepted _ => .refused issues
    | .refused more => .refused (issues ++ more)

/-- Goes on only with what is accepted. -/
def andThen (x : Checked α) (f : α → Checked β) : Checked β :=
  match x with
  | .accepted a => f a
  | .refused issues => .refused issues
  | .failed fault => .failed fault

instance : Functor Checked where
  map f x := x.map f

instance : Seq Checked where
  seq f x := (f.both x).map fun (g, a) => g a

instance : Pure Checked where
  pure := .accepted

/-- Refuses with one issue about the value itself. -/
def issue (kind : IssueKind) : Checked α := .refused [⟨[], kind⟩]

/-- Reports issues as found one step further inside. -/
def within (step : LocationItem) : Checked α → Checked α
  | .refused issues => .refused (issues.map (Issue.within step))
  | x => x

/-- Checks all of a list and gathers all issues. -/
def all (check : α → Checked β) : List α → Checked (List β)
  | [] => .accepted []
  | a :: rest => ((check a).both fun _ => all check rest).map fun (b, bs) => b :: bs

/-- Checks a list up to the first element that is not accepted. -/
def inOrder (check : α → Checked β) : List α → Checked (List β)
  | [] => .accepted []
  | a :: rest => (check a).andThen fun b => (inOrder check rest).map (b :: ·)

/-- Checks a list, reporting each element's issues under its number. -/
def numbered (check : α → Checked β) (items : List α) : Checked (List β) :=
  all (fun (a, n) => (check a).within (.index n)) items.zipIdx

/-- What a check accepts, or the fault of a value that the named model refuses. -/
def result (model : Text) : Checked α → Except Fault α
  | .accepted a => .ok a
  | .refused issues => .error (.invalid model issues)
  | .failed fault => .error fault

end Checked

/-! ## Checks of single values -/

namespace Check

/-- The text that a scalar holds, if it holds one at all: octets hold the text they encode.
`unreadable` is the issue with octets that encode none. -/
def heldText? (unreadable : IssueKind) : Scalar → Option (Except IssueKind Text)
  | .octets o => some (match Octets.decode o with
    | .ok t => .ok t
    | .error _ => .error unreadable)
  | s => s.asText?.map .ok

/-- Like `heldText?`, for a text that is read further: a surrogate half cannot be read. -/
def readableText? (unreadable : IssueKind) (s : Scalar) : Option (Except IssueKind Text) :=
  (heldText? unreadable s).map fun
    | .ok t => if t.any Text.isSurrogate then .error .notUnicode else .ok t
    | .error kind => .error kind

/-- A text, or octets that encode one. -/
def string (v : Value) : Checked Text :=
  match v with
  | .scalar s =>
    match heldText? .notUnicode s with
    | some (.ok t) => .accepted t
    | some (.error kind) => .issue kind
    | none => .issue .notText
  | .ref _ => .issue .notText

/-- A text or nothing. -/
def string? (v : Value) : Checked (Option Text) :=
  if v = .null then .accepted none else (string v).map some

/-- The words for the truth values, in small letters. -/
def boolOfWord? (t : Text) : Option Bool :=
  let word := Text.lower t
  if ["0", "f", "n", "no", "off", "false"].any (text · == word) then some false
  else if ["1", "t", "y", "yes", "on", "true"].any (text · == word) then some true
  else none

/-- The smallest integer of 64 bits with a sign. -/
def smallestWord : Int := -9223372036854775808

/-- Whether an integer fits into 64 bits with a sign. -/
def fitsWord (i : Int) : Bool := smallestWord ≤ i && i < -smallestWord

/-- The truth value that a whole number stands for. Numbers of more than 64 bits stand for none and
are no attempt at one. -/
def boolOfInt (i : Int) : Checked Bool :=
  if !fitsWord i then .issue .notBool
  else if i = 0 then .accepted false
  else if i = 1 then .accepted true
  else .issue .unreadableBool

/-- A truth value, one of its words, or zero or one as a number. A number with a point stands for
an integer between the ends of the 64 bits, the lower end excluded. -/
def bool (v : Value) : Checked Bool :=
  match v with
  | .scalar (.bool b) => .accepted b
  | .scalar (.int i) => boolOfInt i
  | .scalar (.float f) =>
    match f.toInt? with
    | some i => if i = smallestWord then .issue .notBool else boolOfInt i
    | none => .issue .notBool
  | .scalar s =>
    match readableText? .unreadableBool s with
    | some (.ok t) =>
      match boolOfWord? t with
      | some b => .accepted b
      | none => .issue .unreadableBool
    | some (.error kind) => .issue kind
    | none => .issue .notBool
  | .ref _ => .issue .notBool

/-- A bound of a range. -/
inductive Bound where
  | whole (i : Int)
  | real (f : Binary64)
  deriving DecidableEq, Repr

/-- A bound as a value. -/
def Bound.value : Bound → Value
  | .whole i => .scalar (.int i)
  | .real f => .scalar (.float f)

/-- The issues with a bound that is neither a whole number nor one with a point: one for each of
the two attempts. -/
def noBound {α : Type} (whole real : IssueKind) : Checked α :=
  .refused [⟨[.name (text "int")], whole⟩, ⟨[.name (text "float")], real⟩]

/-- A number as it is, a truth value as one or zero, or a number written as a text; a whole number
is preferred there. -/
def bound (v : Value) : Checked Bound :=
  match v with
  | .scalar (.int i) => .accepted (.whole i)
  | .scalar (.float f) => .accepted (.real f)
  | .scalar (.bool b) => .accepted (.whole (if b then 1 else 0))
  | .scalar s =>
    match readableText? .unreadableInt s with
    | some (.ok t) =>
      match Literal.wholeBound? t with
      | some i => .accepted (.whole i)
      | none =>
        match Literal.bound? t with
        | some f => .accepted (.real f)
        | none => noBound .unreadableInt .unreadableFloat
    | some (.error .unreadableInt) => noBound .unreadableInt .unreadableFloat
    | some (.error kind) => noBound kind kind
    | none => noBound .notInt .notFloat
  | .ref _ => noBound .notInt .notFloat

/-- A bound or nothing. -/
def bound? (v : Value) : Checked (Option Bound) :=
  if v = .null then .accepted none else (bound v).map some

/-- The items of whatever can be gone through in order and is not a text or a mapping. The
attributes of a model are pairs, which pass for no scalar. -/
def items? (s : Store) (v : Value) : Option (List Value) :=
  match v with
  | .scalar _ => none
  | .ref p =>
    match s.cell? p with
    | some (.list items) | some (.tuple items) | some (.set items) => some items
    | _ => (s.shownAttributes? p).map fun attributes => attributes.map fun _ => .null

/-- A list, each item of which passes a check. -/
def list {α : Type} (s : Store) (check : Value → Checked α) (v : Value) : Checked (List α) :=
  match items? s v with
  | none => .issue .notList
  | some items => Checked.numbered check items

/-- A method or its name. -/
def method (v : Value) : Checked Method :=
  match v with
  | .scalar (.method m) => .accepted m
  | .scalar s =>
    match readableText? .notMethod s with
    | some (.ok t) =>
      match Method.ofName? t with
      | some m => .accepted m
      | none => .issue .notMethod
    | some (.error kind) => .issue kind
    | none => .issue .notMethod
  | .ref _ => .issue .notMethod

/-- What a mapping gives for the attributes of a model. Nothing else gives any. -/
def given (s : Store) (v : Value) : Except Fault (List (Value × Value)) :=
  match s.deref? v with
  | some (.map entries) => .ok entries
  | _ => .error .wrongKind

/-- The entries of a mapping whose keys serve as the names of attributes. Only texts can. -/
def attributes (entries : List (Value × Value)) : Except Fault (List (Value × Value)) :=
  if entries.all fun entry => entry.1.asText?.isSome then .ok entries else .error .wrongKind

/-- What a key is called that cannot be shown. -/
def unprintable (s : Store) (key : Value) : Text :=
  let kind := match s.deref? key with
    | some (.tuple _) => "tuple"
    | _ => "int"
  text ("<unprintable " ++ kind ++ " object>")

/-- A key that is no text as messages show it. -/
def shownKey (s : Store) (key : Value) : Text :=
  match s.shown key with
  | .ok t => t
  | .error _ => unprintable s key

/-- The step that leads to the part of a mapping behind a key. -/
def step (s : Store) (key : Value) : LocationItem :=
  match key with
  | .scalar x =>
    match x.asText?, x.asInt? with
    | some t, _ => .name (t.flatMap fun c =>
        if Text.isSurrogate c then [0xFFFD, 0xFFFD, 0xFFFD] else [c])
    | none, some i => if fitsWord i then .index i else .name (shownKey s key)
    | none, none => .name (shownKey s key)
  | .ref _ => .name (shownKey s key)

/-- A key that is a name. -/
def key (s : Store) (k : Value) : Checked Text :=
  (string k).within (.name (text "[key]")) |>.within (step s k)

/-- An attribute that may be left out. -/
def optional {α : Type} (entries : List (Value × Value)) (name : String) (absent : α)
    (check : Value → Checked α) : Checked α :=
  match lookupText? entries (text name) with
  | none => .accepted absent
  | some v => (check v).within (.name (text name))

/-- An attribute that has to be there. -/
def required {α : Type} (entries : List (Value × Value)) (name : String)
    (check : Value → Checked α) : Checked α :=
  let checked : Checked α :=
    match lookupText? entries (text name) with
    | none => .issue .missing
    | some v => check v
  checked.within (.name (text name))

end Check

end SwaggerDoc
