import SwaggerDoc.Store.Copy

/-!
Shapes: documents before they have places.

A shape says which lists, tuples and mappings a document consists of and where values come in.
Placing it fills new places only: a value comes in as it is or as a deep copy, and everything around
it is new.
-/

namespace SwaggerDoc

/-- A document that has no places yet. -/
inductive Shape where
  /-- A value as it is. -/
  | value (v : Value)
  /-- A deep copy of a value. -/
  | copy (v : Value)
  | list (items : List Shape)
  | tuple (items : List Shape)
  | map (entries : List (Value × Shape))
  deriving Repr

namespace Shape

/-- A text. -/
def ofText (t : Text) : Shape := .value (.ofText t)

/-- A string. -/
def ofString (s : String) : Shape := ofText (text s)

/-- A truth value. -/
def ofBool (b : Bool) : Shape := .value (.scalar (.bool b))

/-- A mapping whose keys are given as strings. -/
def record (entries : List (String × Shape)) : Shape :=
  .map (entries.map fun (key, shape) => (.ofText (text key), shape))

mutual

/-- Places a shape in a store. -/
def place (s : Store) : Shape → Value × Store
  | .value v => (v, s)
  | .copy v => s.copy v
  | .list items =>
    let (items, s) := placeAll s items
    s.alloc (.list items)
  | .tuple items =>
    let (items, s) := placeAll s items
    s.alloc (.tuple items)
  | .map entries =>
    let (entries, s) := placeEntries s entries
    s.alloc (.map entries)

/-- Places shapes in order. -/
def placeAll (s : Store) : List Shape → List Value × Store
  | [] => ([], s)
  | shape :: rest =>
    let (v, s) := shape.place s
    let (items, s) := placeAll s rest
    (v :: items, s)

/-- Places the values of entries in order. -/
def placeEntries (s : Store) : List (Value × Shape) → List (Value × Value) × Store
  | [] => ([], s)
  | (key, shape) :: rest =>
    let (v, s) := shape.place s
    let (entries, s) := placeEntries s rest
    ((key, v) :: entries, s)

end

end Shape

end SwaggerDoc
