import SwaggerDoc.Store.Basic

/-!
Data, and the values that stand for them.

Data are made of nothing, truth values, whole numbers, texts, lists, and mappings whose keys are
texts. A value stands for data if its containers hold what the data say, in the same order; the
places of the containers come from the outermost to the innermost, so that a container that is
shared is among them twice.
-/

namespace SwaggerDoc

/-- Data without parts. -/
inductive Atom where
  | null
  | bool (b : Bool)
  | int (i : Int)
  | text (t : Text)
  deriving DecidableEq, Repr

/-- The scalar that stands for an atom. -/
def Atom.scalar : Atom → Scalar
  | .null => .null
  | .bool b => .bool b
  | .int i => .int i
  | .text t => .string t

/-- Data: an atom, a list, or a mapping from texts. -/
inductive Data where
  | atom (a : Atom)
  | list (items : List Data)
  | map (entries : List (Text × Data))
  deriving Repr

namespace Store

mutual

/-- A value stands for data, with its containers at the given places. A mapping has each key
once. -/
def Stands (s : Store) : Data → Value → List Place → Prop
  | .atom a, v, places => v = .scalar a.scalar ∧ places = []
  | .list items, v, places => ∃ p values inner, v = .ref p ∧ places = p :: inner ∧
    s.cell? p = some (.list values) ∧ StandAll s items values inner
  | .map entries, v, places => ∃ p values inner, v = .ref p ∧ places = p :: inner ∧
    s.cell? p = some (.map values) ∧ StandEntries s entries values inner ∧
    (entries.map Prod.fst).Nodup

/-- Values stand for data in order. -/
def StandAll (s : Store) : List Data → List Value → List Place → Prop
  | [], values, places => values = [] ∧ places = []
  | d :: rest, values, places => ∃ v more first others, values = v :: more ∧
    places = first ++ others ∧ Stands s d v first ∧ StandAll s rest more others

/-- Entries stand for the entries of a mapping in order. -/
def StandEntries (s : Store) : List (Text × Data) → List (Value × Value) → List Place → Prop
  | [], values, places => values = [] ∧ places = []
  | (key, d) :: rest, values, places => ∃ v more first others, values = (.ofText key, v) :: more ∧
    places = first ++ others ∧ Stands s d v first ∧ StandEntries s rest more others

end

variable {s : Store}

mutual

theorem Stands.filled : (d : Data) → {v : Value} → {places : List Place} → s.Stands d v places →
    ∀ p ∈ places, p < s.size
  | .atom a, v, places, stands => by
    obtain ⟨-, rfl⟩ := stands
    exact List.forall_mem_nil _
  | .list items, v, places, stands => by
    obtain ⟨p, values, inner, -, rfl, cell, parts⟩ := stands
    exact List.forall_mem_cons.mpr ⟨lt_size_of_cell? cell, parts.filled items⟩
  | .map entries, v, places, stands => by
    obtain ⟨p, values, inner, -, rfl, cell, parts, -⟩ := stands
    exact List.forall_mem_cons.mpr ⟨lt_size_of_cell? cell, parts.filled entries⟩

theorem StandAll.filled : (items : List Data) → {values : List Value} → {places : List Place} →
    s.StandAll items values places → ∀ p ∈ places, p < s.size
  | [], values, places, stands => by
    obtain ⟨-, rfl⟩ := stands
    exact List.forall_mem_nil _
  | d :: rest, values, places, stands => by
    obtain ⟨v, more, first, others, -, rfl, here, later⟩ := stands
    exact List.forall_mem_append.mpr ⟨here.filled d, later.filled rest⟩

theorem StandEntries.filled : (entries : List (Text × Data)) → {values : List (Value × Value)} →
    {places : List Place} → s.StandEntries entries values places → ∀ p ∈ places, p < s.size
  | [], values, places, stands => by
    obtain ⟨-, rfl⟩ := stands
    exact List.forall_mem_nil _
  | (key, d) :: rest, values, places, stands => by
    obtain ⟨v, more, first, others, -, rfl, here, later⟩ := stands
    exact List.forall_mem_append.mpr ⟨here.filled d, later.filled rest⟩

end

end Store

end SwaggerDoc
