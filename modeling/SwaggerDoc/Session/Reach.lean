import SwaggerDoc.Store.Equality

/-!
Reaching into values: reading and changing what lies behind a way.

A way leads from a value to a part of it, through attributes of models, keys of mappings and
numbers of items. Changing a part replaces what lies at one place and nothing is checked, so
whatever shares the place sees the change.
-/

namespace SwaggerDoc

/-- One step of a way. -/
inductive WayStep where
  | named (name : Text)
  | item (key : Value)
  deriving DecidableEq, Repr

/-- A step as a key: the name of an attribute is written behind a point. -/
def WayStep.key : WayStep → Value
  | .named name => .ofText (46 :: name)
  | .item key => key

/-- A way from a value to a part of it. -/
abbrev Way := List WayStep

namespace Store

/-- The position that an index means in a list of some length: a negative one counts from the end.
-/
def position? (length : Nat) (i : Int) : Option Nat :=
  let n := if i < 0 then i + length else i
  if 0 ≤ n && n < length then some n.toNat else none

/-- The position that a key means in a list. Only integers mean one. -/
def positionOf (length : Nat) (key : Value) : Except Fault Nat :=
  match key with
  | .scalar x =>
    match x.asInt? with
    | none => .error .wrongKind
    | some i =>
      match position? length i with
      | some n => .ok n
      | none => .error .noIndex
  | .ref _ => .error .wrongKind

/-- The item of a list that a key means. -/
def itemOf (items : List Value) (key : Value) : Except Fault Value := do
  match items[← positionOf items.length key]? with
  | some v => return v
  | none => throw .noIndex

/-- The parts of a date by name. -/
def dateParts (d : Date) : List (Text × Value) :=
  [(text "year", .ofNat d.year), (text "month", .ofNat d.month), (text "day", .ofNat d.day)]

/-- The parts of a time by name. -/
def timeParts (t : DateTime) : List (Text × Value) :=
  dateParts t.date
    ++ [ (text "hour", .ofNat t.hour), (text "minute", .ofNat t.minute),
         (text "second", .ofNat t.second), (text "microsecond", .ofNat t.microsecond) ]

/-- The attributes by name of a value: those of a model, the parts of a date or a time, and of a
type tag or a method its written name and its label. Other values have none. -/
def attributesOf (s : Store) : Value → List (Text × Value)
  | .scalar x =>
    match x.label?, x.asText? with
    | some label, some name => [(text "value", .ofText name), (text "name", .ofText label)]
    | _, _ => []
  | .ref p =>
    match s.cell? p with
    | some (.date d) => dateParts d
    | some (.time t) => timeParts t
    | _ => (s.attributes? p).getD []

/-- The attribute of a name. -/
def attributeNamed (s : Store) (v : Value) (name : Text) : Except Fault Value :=
  match (s.attributesOf v).lookup name with
  | some found => .ok found
  | none => .error .noAttribute

/-- The part of a value behind a key. -/
def part (s : Store) (v key : Value) : Except Fault Value :=
  match v with
  | .scalar (.octets o) => itemOf (o.map Value.ofNat) key
  | .scalar x =>
    match x.asText? with
    | some t => itemOf (t.map fun c => .ofText [c]) key
    | none => .error .wrongKind
  | .ref p =>
    match s.cell? p with
    | some (.list items) | some (.tuple items) => itemOf items key
    | some (.map entries) =>
      if !s.hashable key then .error .wrongKind
      else match s.lookup? entries key with
        | some found => .ok found
        | none => .error .noKey
    | _ => .error .wrongKind

/-- The value at the end of a way. -/
def reach (s : Store) (v : Value) : Way → Except Fault Value
  | [] => .ok v
  | .named name :: rest => do s.reach (← s.attributeNamed v name) rest
  | .item key :: rest => do s.reach (← s.part v key) rest

/-- Replaces the attribute of a name, if there is one of that name. -/
def replaceAttribute (names : List Text) (values : List Value) (name : Text) (v : Value) :
    Except Fault (List Value) :=
  match names.idxOf? name with
  | some n => .ok (values.set n v)
  | none => .error .badValue

/-- Assigns to an attribute of a model. A name that begins with an underscore need not be one of the
attributes that the model has. -/
def assignAttribute (s : Store) (target : Value) (name : Text) (v : Value) : Except Fault Store :=
  match target with
  | .scalar _ => .error .noAttribute
  | .ref p =>
    match s.cell? p with
    | some c =>
      if c.attributes?.isNone then .error .noAttribute
      else if isHidden name then .ok (s.give p name v)
      else match c with
        | .field f => do
          let attributes ← replaceAttribute fieldAttributeNames f.attributes name v
          return s.write p (.field ((FieldCell.ofAttributes? attributes).getD f))
        | .resource r => do
          let attributes ← replaceAttribute resourceAttributeNames r.attributes name v
          return s.write p (.resource ((ResourceCell.ofAttributes? attributes).getD r))
        | _ =>
          if name = text "fields" then .ok (s.write p (.schema v)) else .error .badValue
    | none => .error .noAttribute

/-- Assigns to the part of a list or a mapping behind a key. -/
def assignPart (s : Store) (target key v : Value) : Except Fault Store :=
  match target with
  | .scalar _ => .error .wrongKind
  | .ref p =>
    match s.cell? p with
    | some (.list items) => do
      return s.write p (.list (items.set (← positionOf items.length key) v))
    | some (.map entries) =>
      if s.hashable key then .ok (s.write p (.map (s.insert entries key v)))
      else .error .wrongKind
    | _ => .error .wrongKind

/-- The value that the last step of a way starts from, and that step. -/
def beforeLast (s : Store) (v : Value) (way : Way) : Except Fault (Value × WayStep) :=
  match way.getLast? with
  | none => .error .noIndex
  | some last => do return (← s.reach v way.dropLast, last)

/-- Assigns to the end of a way. -/
def assign (s : Store) (v : Value) (way : Way) (new : Value) : Except Fault Store := do
  match ← s.beforeLast v way with
  | (target, .named name) => s.assignAttribute target name new
  | (target, .item key) => s.assignPart target key new

/-- The place of the list at the end of a way, and its items. -/
def listAt (s : Store) (v : Value) (way : Way) : Except Fault (Place × List Value) := do
  match ← s.reach v way with
  | .scalar _ => throw .noAttribute
  | .ref p =>
    match s.cell? p with
    | some (.list items) => return (p, items)
    | _ => throw .noAttribute

/-- Appends to the list at the end of a way. -/
def append (s : Store) (v : Value) (way : Way) (new : Value) : Except Fault Store := do
  let (p, items) ← s.listAt v way
  return s.write p (.list (items ++ [new]))

/-- Deletes the part of a list or a mapping at the end of a way. Attributes cannot be deleted, so
the last step is a key even if it is written like an attribute. -/
def delete (s : Store) (v : Value) (way : Way) : Except Fault Store := do
  let (target, last) ← s.beforeLast v way
  let key := last.key
  match target with
  | .scalar _ => throw .wrongKind
  | .ref p =>
    match s.cell? p with
    | some (.list items) =>
      return s.write p (.list (items.eraseIdx (← positionOf items.length key)))
    | some (.map entries) => do
      if !s.hashable key then throw .wrongKind
      if (s.lookup? entries key).isNone then throw .noKey
      return s.write p (.map (s.erase entries key))
    | _ => throw .wrongKind

end Store

end SwaggerDoc
