import SwaggerDoc.Value

/-!
Stores: the places where everything with parts lies.

A place is filled when it is allocated and stays filled; assigning replaces what lies there. A value
from before an allocation therefore keeps its meaning after it.
-/

namespace SwaggerDoc

/-- The attributes of a field declaration. -/
structure FieldCell where
  tag : Value
  required : Value
  description : Value
  sample : Value
  choices : Value
  least : Value
  greatest : Value
  target : Value
  readonly : Value
  deriving DecidableEq, Repr

/-- The attributes of a resource. -/
structure ResourceCell where
  route : Value
  name : Value
  model : Value
  methods : Value
  deriving DecidableEq, Repr

/-- The names of the attributes of a field declaration, in their order. -/
def fieldAttributeNames : List Text :=
  ["type", "required", "description", "example", "enum", "min", "max", "ref", "readonly"].map text

/-- The names of the attributes of a resource, in their order. -/
def resourceAttributeNames : List Text := ["route", "name", "model_name", "methods"].map text

/-- The attributes of a field declaration in their order. -/
def FieldCell.attributes (f : FieldCell) : List Value :=
  [f.tag, f.required, f.description, f.sample, f.choices, f.least, f.greatest, f.target, f.readonly]

/-- The attributes of a resource in their order. -/
def ResourceCell.attributes (r : ResourceCell) : List Value := [r.route, r.name, r.model, r.methods]

/-- A field declaration from its attributes in their order. -/
def FieldCell.ofAttributes? : List Value → Option FieldCell
  | [tag, required, description, sample, choices, least, greatest, target, readonly] =>
    some ⟨tag, required, description, sample, choices, least, greatest, target, readonly⟩
  | _ => none

/-- A resource from its attributes in their order. -/
def ResourceCell.ofAttributes? : List Value → Option ResourceCell
  | [route, name, model, methods] => some ⟨route, name, model, methods⟩
  | _ => none

@[simp] theorem FieldCell.ofAttributes?_attributes (f : FieldCell) :
    FieldCell.ofAttributes? f.attributes = some f := rfl

@[simp] theorem ResourceCell.ofAttributes?_attributes (r : ResourceCell) :
    ResourceCell.ofAttributes? r.attributes = some r := rfl

/-- What can lie at a place. -/
inductive Cell where
  | list (items : List Value)
  | tuple (items : List Value)
  /-- A set, its members in the order in which they are gone through. -/
  | set (items : List Value)
  /-- A mapping, its keys in the order in which they first came. -/
  | map (entries : List (Value × Value))
  | date (d : Date)
  | time (t : DateTime)
  | field (f : FieldCell)
  | schema (fields : Value)
  | resource (r : ResourceCell)
  /-- A thing of which nothing is known but its identity. -/
  | object
  deriving DecidableEq, Repr

/-- The attributes by name of a cell that is a model. -/
def Cell.attributes? : Cell → Option (List (Text × Value))
  | .field f => some (fieldAttributeNames.zip f.attributes)
  | .schema fields => some [(text "fields", fields)]
  | .resource r => some (resourceAttributeNames.zip r.attributes)
  | _ => none

/-- An attribute that a model has been given beside those that all its kind have. -/
structure GivenAttribute where
  /-- The place of the model. -/
  model : Place
  name : Text
  value : Value
  deriving DecidableEq, Repr

/-- Attributes with such names do not count when the attributes of a model are gone through. -/
def isHidden (name : Text) : Bool := name.head? == some 95

/-- The order in which the members of a set are gone through, once they have come to a place one
after the other. It is some order, which hangs on how things are hashed and changes from one process
to the next. -/
class SetOrder where
  arrange : Place → List Value → List Value
  perm : ∀ p items, (arrange p items).Perm items

/-- If nothing else is known, members are gone through as they came. -/
instance : SetOrder := ⟨fun _ items => items, fun _ _ => .refl _⟩

/-- The places filled so far, and the number of labels given out to not-a-numbers. -/
structure Store where
  cells : Array Cell
  labels : Nat
  /-- The attributes that models have been given, in order. -/
  given : List GivenAttribute
  /-- The order in which new sets are gone through. -/
  [order : SetOrder]

namespace Store

/-- A store in which nothing lies. -/
def empty : Store := ⟨#[], 1, []⟩

/-- The number of places filled. -/
def size (s : Store) : Nat := s.cells.size

/-- What lies at a place. -/
def cell? (s : Store) (p : Place) : Option Cell := s.cells[p]?

/-- What lies where a value points to. -/
def deref? (s : Store) : Value → Option Cell
  | .scalar _ => none
  | .ref p => s.cell? p

/-- The attributes by name that a model has been given. -/
def givenTo (s : Store) (p : Place) : List (Text × Value) :=
  (s.given.filter (·.model == p)).map fun g => (g.name, g.value)

/-- All attributes by name of the model at a place, last those that it has been given. -/
def attributes? (s : Store) (p : Place) : Option (List (Text × Value)) := do
  return (← (← s.cell? p).attributes?) ++ s.givenTo p

/-- The attributes by name that are gone through at a model. -/
def shownAttributes? (s : Store) (p : Place) : Option (List (Text × Value)) :=
  (s.attributes? p).map fun attributes => attributes.filter (!isHidden ·.1)

/-- Gives an attribute to a model, in the place of one of the same name. -/
def give (s : Store) (p : Place) (name : Text) (v : Value) : Store :=
  let others := s.given.filter fun g => g.model != p || g.name != name
  { s with given := others ++ [⟨p, name, v⟩] }

/-- Gives attributes to a model. -/
def giveAll (s : Store) (p : Place) (attributes : List (Text × Value)) : Store :=
  attributes.foldl (fun s (name, v) => s.give p name v) s

/-- Fills a new place. -/
def alloc (s : Store) (c : Cell) : Value × Store :=
  (.ref s.size, { s with cells := s.cells.push c })

/-- Replaces what lies at a place. -/
def write (s : Store) (p : Place) (c : Cell) : Store :=
  { s with cells := s.cells.setIfInBounds p c }

/-- What comes to lie at a place: a set has its members in some order. -/
def settled (s : Store) (p : Place) : Cell → Cell
  | .set items => .set (s.order.arrange p items)
  | c => c

/-- A number of its own: a not-a-number gets a label that no other has. -/
def number (s : Store) : Binary64 → Value × Store
  | .nan _ => (.scalar (.float (.nan s.labels)), { s with labels := s.labels + 1 })
  | f => (.scalar (.float f), s)

/-- Whether a value counts as present. What has no parts to count is always present. -/
def truthy (s : Store) : Value → Bool
  | .scalar x => x.truthy
  | .ref p =>
    match s.cell? p with
    | some (.list items) | some (.tuple items) | some (.set items) => !items.isEmpty
    | some (.map entries) => !entries.isEmpty
    | _ => true

@[simp] theorem size_alloc (s : Store) (c : Cell) : (s.alloc c).2.size = s.size + 1 := by
  simp [alloc, size]

@[simp] theorem size_write (s : Store) (p : Place) (c : Cell) : (s.write p c).size = s.size := by
  simp [write, size]

theorem lt_size_of_cell? {s : Store} {p : Place} {c : Cell} (cell : s.cell? p = some c) :
    p < s.size :=
  (Array.getElem?_eq_some_iff.mp cell).1

/-- Allocating leaves every filled place as it is. -/
theorem cell?_alloc_of_lt {s : Store} {c : Cell} {p : Place} (filled : p < s.size) :
    (s.alloc c).2.cell? p = s.cell? p := by
  simp only [cell?, alloc, size] at *
  rw [Array.getElem?_push]
  split <;> simp_all

/-- The new place holds what it was filled with. -/
@[simp] theorem cell?_alloc_self (s : Store) (c : Cell) :
    (s.alloc c).2.cell? s.size = some c := by
  simp [cell?, alloc, size]

/-- Assigning leaves every other place as it is. -/
theorem cell?_write_of_ne {s : Store} {c : Cell} {p q : Place} (different : q ≠ p) :
    (s.write p c).cell? q = s.cell? q := by
  simp only [cell?, write, Array.getElem?_setIfInBounds]
  rw [if_neg (Ne.symm different)]

end Store

end SwaggerDoc
