import SwaggerDoc.Store.Shown
import SwaggerDoc.Yaml.Style

/-!
Values drawn as trees of nodes.

What is met a second time is drawn as a mere reference to the place where it was met first. Texts,
numbers and the like, and the empty tuple, have no identity and are drawn wherever they stand.
-/

namespace SwaggerDoc.Yaml

/-- A drawn value. The place is there when a later node can refer back to it. -/
inductive Drawing where
  | scalar (place : Option Place) (tag : NodeTag) (t : Text) (lines : Bool)
  | sequence (place : Option Place) (items : List Drawing)
  | mapping (place : Option Place) (tag : NodeTag) (entries : List (Drawing × Drawing))
  | again (place : Place)
  deriving Repr

/-- Numbers in YAML documents. -/
def yamlNumbers : NumberLayout := ⟨text ".nan", text ".inf", true⟩

namespace Drawing

/-- A scalar without a place. Type tags and methods have no form of their own. -/
def ofScalar : Scalar → Except Fault Drawing
  | .null => .ok (.scalar none .null (text "null") false)
  | .bool b => .ok (.scalar none .bool (text (if b then "true" else "false")) false)
  | .int i => do return .scalar none .int (← integerText? i) false
  | .float f => .ok (.scalar none .float (yamlNumbers.number f) false)
  | .string t => .ok (.scalar none .string t false)
  | .octets o => .ok (.scalar none .binary (Base64.encodeLines o) true)
  | .fieldType _ | .method _ => .error .notRepresentable

/-- A step that draws one value, knowing the places met before. -/
abbrev DrawStep := List Place → Value → Except Fault (Drawing × List Place)

/-- Draws values from left to right. -/
def drawAll (step : DrawStep) :
    List Place → List Value → Except Fault (List Drawing × List Place)
  | met, [] => .ok ([], met)
  | met, v :: rest => do
    let (d, met) ← step met v
    let (ds, met) ← drawAll step met rest
    return (d :: ds, met)

/-- Draws entries from left to right, each key before its value. -/
def drawEntries (step : DrawStep) :
    List Place → List (Value × Value) → Except Fault (List (Drawing × Drawing) × List Place)
  | met, [] => .ok ([], met)
  | met, (key, value) :: rest => do
    let (k, met) ← step met key
    let (v, met) ← step met value
    let (ds, met) ← drawEntries step met rest
    return ((k, v) :: ds, met)

/-- Draws a value. The first argument bounds the depth; a place is known as met before its parts
are drawn. -/
def drawWithin (s : Store) : Nat → DrawStep
  | _, met, .scalar x => do return (← ofScalar x, met)
  | 0, _, .ref _ => .error .tooDeep
  | depth + 1, met, .ref p =>
    if met.contains p then .ok (.again p, met)
    else
      let step := drawWithin s depth
      match s.cell? p with
      | some (.list items) => do
        let (ds, met) ← drawAll step (p :: met) items
        return (.sequence (some p) ds, met)
      | some (.tuple []) => .ok (.sequence none [], met)
      | some (.tuple items) => do
        let (ds, met) ← drawAll step (p :: met) items
        return (.sequence (some p) ds, met)
      | some (.map entries) => do
        let (ds, met) ← drawEntries step (p :: met) entries
        return (.mapping (some p) .mapping ds, met)
      | some (.set items) => do
        let (ds, met) ← drawEntries step (p :: met) (items.map fun x => (x, .null))
        return (.mapping (some p) .set ds, met)
      | some (.date d) => .ok (.scalar (some p) .timestamp d.iso false, p :: met)
      | some (.time t) => .ok (.scalar (some p) .timestamp (t.iso 32) false, p :: met)
      | _ => .error .notRepresentable

/-- Draws a value with all its parts. -/
def draw (s : Store) (v : Value) : Except Fault Drawing := do
  return (← drawWithin s (s.size + 1) [] v).1

mutual

/-- The places that are referred back to, in the order of the references, with repetitions. -/
def references : Drawing → List Place
  | .scalar .. => []
  | .sequence _ items => referencesAll items
  | .mapping _ _ entries => referencesEntries entries
  | .again p => [p]

/-- The places that some drawings refer back to. -/
def referencesAll : List Drawing → List Place
  | [] => []
  | d :: rest => d.references ++ referencesAll rest

/-- The places that some entries refer back to. -/
def referencesEntries : List (Drawing × Drawing) → List Place
  | [] => []
  | (k, v) :: rest => k.references ++ v.references ++ referencesEntries rest

end

end Drawing

end SwaggerDoc.Yaml
