import SwaggerDoc.Store.Equality

/-!
Values unfolded into trees.

A tree shows all that a value contains, without the places. What two parts share is shown twice, and
where a value contains itself the tree says how many containers further out the same one is.
-/

namespace SwaggerDoc

/-- A value with all its parts. -/
inductive Tree where
  | scalar (s : Scalar)
  | list (items : List Tree)
  | tuple (items : List Tree)
  | set (items : List Tree)
  | map (entries : List (Tree × Tree))
  | date (d : Date)
  | time (t : DateTime)
  /-- A field declaration: its attributes by name. -/
  | field (attributes : List (Text × Tree))
  /-- A schema: its fields by name, unless they are no mapping. -/
  | schema (fields : Option (List (Tree × Tree)))
  /-- A resource: its attributes by name. -/
  | resource (attributes : List (Text × Tree))
  | object
  /-- The container that many levels further out; one is the container that holds this part. -/
  | back (levels : Nat)
  deriving Repr

namespace Store

/-- Unfolds a value inside the containers at the given places, innermost first. The first argument
bounds the depth. -/
def unfoldWithin (s : Store) : Nat → List Place → Value → Tree
  | _, _, .scalar x => .scalar x
  | 0, _, .ref _ => .object
  | depth + 1, outer, .ref p =>
    match outer.idxOf? p with
    | some n => .back (n + 1)
    | none =>
      let part := unfoldWithin s depth (p :: outer)
      let entry (e : Value × Value) : Tree × Tree := (part e.1, part e.2)
      match s.cell? p with
      | some (.list items) => .list (items.map part)
      | some (.tuple items) => .tuple (items.map part)
      | some (.set items) => .set (items.map part)
      | some (.map entries) => .map (entries.map entry)
      | some (.date d) => .date d
      | some (.time t) => .time t
      | some (.field f) => .field (fieldAttributeNames.zip (f.attributes.map part))
      | some (.schema fields) =>
        match s.deref? fields with
        | some (.map entries) => .schema (some (entries.map entry))
        | _ => .schema none
      | some (.resource r) =>
        .resource (resourceAttributeNames.zip (r.attributes.map part))
      | some .object | none => .object

/-- A value with all its parts. The containers around a part are at different places, so the number
of places bounds the depth. -/
def unfold (s : Store) (v : Value) : Tree := unfoldWithin s (s.size + 1) [] v

end Store

end SwaggerDoc
