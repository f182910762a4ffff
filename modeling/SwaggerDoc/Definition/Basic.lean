import SwaggerDoc.Schema.Outline

/-!
Definitions: the properties that describe the instances of a schema.

A property is what its type maps to, together with the modifiers that survive. The type of a
reference is not known here, so a reference ends up with the type string, and that fallback is
reported.
-/

namespace SwaggerDoc

/-- The values that a property allows. -/
inductive Allowable where
  /-- One of the listed choices. -/
  | list (choices : List Choice)
  /-- A number within the bounds given; at least one is. -/
  | range (least greatest : Option Value)
  deriving Repr

mutual

/-- What the type of a field maps to. -/
inductive Kind where
  | string
  | date
  | integer
  | boolean
  /-- A reference to the definition of that name. -/
  | reference (target : Text)
  /-- An array of strings. -/
  | texts
  /-- An array of instances of a definition. -/
  | records (item : Definition)

/-- The description of one field. -/
inductive Property where
  | mk (kind : Kind) (description sample : Option Value) (allowable : Option Allowable)

/-- The properties of a schema, in order. -/
inductive Definition where
  | mk (properties : List (Name × Property))

end

/-- The properties of a definition, in order. -/
def Definition.properties : Definition → List (Name × Property)
  | .mk properties => properties

/-- A property whose type could not be determined and was taken to be string. -/
structure Fallback where
  /-- The name of the definition. -/
  definition : Text
  field : Text
  tag : Text
  deriving DecidableEq, Repr

/-- The warning about a fallback. -/
def Fallback.warning (f : Fallback) : Text :=
  text "Field type not supported in Swagger definitions, using \"string\": " ++ f.definition
    ++ text "." ++ f.field ++ text " (type: " ++ f.tag ++ text ")"

/-- What fallbacks leave behind. -/
structure Journal where
  /-- The fallbacks noted, if the caller keeps a list of them. -/
  kept : Option (List Fallback)
  /-- The warnings logged. -/
  log : List Text
  deriving DecidableEq, Repr

namespace Journal

/-- Notes a fallback. It is logged whether or not the caller keeps a list. -/
def note (j : Journal) (f : Fallback) : Journal where
  kept := j.kept.map (· ++ [f])
  log := j.log ++ [f.warning]

/-- Notes fallbacks in order. -/
def noteAll (j : Journal) (fs : List Fallback) : Journal where
  kept := j.kept.map (· ++ fs)
  log := j.log ++ fs.map Fallback.warning

@[simp] theorem noteAll_nil (j : Journal) : j.noteAll [] = j := by
  cases j
  simp [noteAll]

@[simp] theorem noteAll_noteAll (j : Journal) (fs gs : List Fallback) :
    (j.noteAll fs).noteAll gs = j.noteAll (fs ++ gs) := by
  simp [noteAll, Function.comp_def]

@[simp] theorem note_eq_noteAll (j : Journal) (f : Fallback) : j.note f = j.noteAll [f] := rfl

end Journal

/-- A computation that goes on with a journal: it comes to a result or a fault, and whatever it
noted on the way to a fault stays noted. -/
def Report (α : Type) : Type := Journal → Except Fault α × Journal

namespace Report

variable {α β : Type}

/-- A result at once. -/
def ok (a : α) : Report α := fun j => (.ok a, j)

/-- A fault at once. -/
def fault (f : Fault) : Report α := fun j => (.error f, j)

/-- A result that may be a fault. -/
def ofExcept (r : Except Fault α) : Report α := fun j => (r, j)

/-- Notes one fallback. -/
def fallback (f : Fallback) : Report Unit := fun j => (.ok (), j.note f)

/-- Goes on with a result and what has been noted so far. -/
def bind (r : Report α) (f : α → Report β) : Report β := fun j =>
  match r j with
  | (.error e, j) => (.error e, j)
  | (.ok a, j) => f a j

instance : Monad Report where
  pure := ok
  bind := bind

instance : LawfulMonad Report :=
  LawfulMonad.mk' Report
    (by
      intro α r
      funext j
      simp only [Functor.map, bind]
      split <;> simp_all [ok])
    (fun _ _ => rfl)
    (by
      intro α β γ r f g
      funext j
      simp only [Bind.bind, bind]
      cases r j with
      | mk result j => cases result <;> rfl)

@[simp] theorem ofExcept_ok (a : α) : ofExcept (.ok a) = (pure a : Report α) := rfl

@[simp] theorem ofExcept_error (f : Fault) : ofExcept (.error f) = (fault f : Report α) := rfl

@[simp] theorem fault_bind (f : Fault) (g : α → Report β) : (fault f >>= g) = fault f := rfl

theorem pure_apply (a : α) (j : Journal) : (pure a : Report α) j = (.ok a, j) := rfl

theorem fault_apply (f : Fault) (j : Journal) : (fault f : Report α) j = (.error f, j) := rfl

/-- Names the field that an unrecognised tag belongs to, unless it is named already. -/
def blame (field : Name) (r : Report α) : Report α := fun j =>
  match r j with
  | (.error (.unrecognized tag shown none), j) =>
    (.error (.unrecognized tag shown (some field)), j)
  | other => other

end Report

end SwaggerDoc
