import SwaggerDoc.Store.Equality

/-!
Deep copies.

Everything that is reached from a value gets a new place, and there lies what lay at the old place,
with the places exchanged. So the copy has no place in common with what it is copied from, what the
copied value shares with itself the copy shares with itself too, and a value that contains itself
has a copy that contains itself. Only tuples from which nothing but tuples is reached stay where
they are, because nothing can change in them.

A copy is made of every value here. An object of which nothing is known may refuse to be copied, and
a value that is nested deep may be given up; what is sure to be copied is `Store.IsCopyable`.
-/

namespace SwaggerDoc

/-- The place that a value points to. -/
def Value.place? : Value → Option Place
  | .scalar _ => none
  | .ref p => some p

/-- A value with its place exchanged. -/
def Value.moved (move : Place → Place) : Value → Value
  | .scalar x => .scalar x
  | .ref p => .ref (move p)

/-- A field declaration with the places in it exchanged. -/
def FieldCell.moved (move : Place → Place) (f : FieldCell) : FieldCell where
  tag := f.tag.moved move
  required := f.required.moved move
  description := f.description.moved move
  sample := f.sample.moved move
  choices := f.choices.moved move
  least := f.least.moved move
  greatest := f.greatest.moved move
  target := f.target.moved move
  readonly := f.readonly.moved move

/-- A resource with the places in it exchanged. -/
def ResourceCell.moved (move : Place → Place) (r : ResourceCell) : ResourceCell where
  route := r.route.moved move
  name := r.name.moved move
  model := r.model.moved move
  methods := r.methods.moved move

namespace Cell

/-- The values inside a cell. -/
def parts : Cell → List Value
  | .list items | .tuple items | .set items => items
  | .map entries => entries.flatMap fun entry => [entry.1, entry.2]
  | .field f => f.attributes
  | .schema fields => [fields]
  | .resource r => r.attributes
  | .date _ | .time _ | .object => []

/-- A cell with the places in it exchanged. -/
def moved (move : Place → Place) : Cell → Cell
  | .list items => .list (items.map (Value.moved move))
  | .tuple items => .tuple (items.map (Value.moved move))
  | .set items => .set (items.map (Value.moved move))
  | .map entries => .map (entries.map fun entry => (entry.1.moved move, entry.2.moved move))
  | .field f => .field (f.moved move)
  | .schema fields => .schema (fields.moved move)
  | .resource r => .resource (r.moved move)
  | .date d => .date d
  | .time t => .time t
  | .object => .object

/-- Whether a cell is a tuple. -/
def isTuple : Cell → Bool
  | .tuple _ => true
  | _ => false

end Cell

namespace Store

/-- The values at a place: those inside the cell and those given to it as attributes. -/
def partsAt (s : Store) (p : Place) : List Value :=
  ((s.cell? p).map Cell.parts).getD [] ++ (s.givenTo p).map Prod.snd

/-- The places that are pointed to from a place. -/
def linksFrom (s : Store) (p : Place) : List Place := (s.partsAt p).filterMap Value.place?

/-- The filled places that are found, in order: the given ones and those that they point to. -/
def widened (s : Store) (found : List Place) : List Place :=
  let links := found.flatMap s.linksFrom
  (List.range s.size).filter fun p => found.contains p || links.contains p

/-- Widens the places found until nothing is added. The first argument bounds the rounds. -/
def spread (s : Store) : Nat → List Place → List Place
  | 0, found => found
  | rounds + 1, found =>
    let wider := s.widened found
    if wider.length = found.length then found else s.spread rounds wider

/-- The filled places that are reached from a value, in order. Each round but the last adds one of
them. -/
def reached (s : Store) (v : Value) : List Place :=
  s.spread s.size ((List.range s.size).filter fun p => v.place? == some p)

/-- Whether there is a tuple at a place. -/
def holdsTuple (s : Store) (p : Place) : Bool := (s.cell? p).any Cell.isTuple

/-- Whether nothing that is reached from a place can change. -/
def isFixed (s : Store) (p : Place) : Bool := (s.reached (.ref p)).all s.holdsTuple

/-- The places that a copy of a value has a place of its own for. -/
def copied (s : Store) (v : Value) : List Place := (s.reached v).filter (!s.isFixed ·)

/-- Where places come to be when some of them are copied behind the filled ones. -/
def relocation (s : Store) (places : List Place) (p : Place) : Place :=
  match places.idxOf? p with
  | some n => s.size + n
  | none => p

/-- What comes to lie at the new places. -/
def movedCells (s : Store) (places : List Place) : List Cell :=
  places.map fun p => ((s.cell? p).getD .object).moved (s.relocation places)

/-- The attributes given to the models at the new places. -/
def movedGiven (s : Store) (places : List Place) : List GivenAttribute :=
  places.flatMap fun p => (s.givenTo p).map fun (name, value) =>
    ⟨s.relocation places p, name, value.moved (s.relocation places)⟩

/-- A deep copy of a value. -/
def copy (s : Store) (v : Value) : Value × Store :=
  let places := s.copied v
  ( v.moved (s.relocation places),
    { s with
      cells := s.cells ++ (s.movedCells places).toArray
      given := s.given ++ s.movedGiven places })

end Store

end SwaggerDoc
