import SwaggerDoc.Fault
import SwaggerDoc.Store.Basic

/-!
Equality of values, and mappings as lists of entries.

Two values are equal when their parts are, in order for lists and in any order for mappings and
sets. Inside a container the very same thing counts as equal without a further look, which is how a
list equals itself although it holds a not-a-number. Values that contain themselves have no bottom
to compare, and comparing them can be too deep.
-/

namespace SwaggerDoc

namespace Store

/-- Whether a test holds of all pairs; it is not asked beyond the first pair that fails it. -/
def allPairs (test : Value → Value → Except Fault Bool) :
    List Value → List Value → Except Fault Bool
  | x :: xs, y :: ys => do if ← test x y then allPairs test xs ys else return false
  | _, _ => .ok true

/-- The first value behind a key that satisfies a test. -/
def findKey? (test : Value → Except Fault Bool) :
    List (Value × Value) → Except Fault (Option Value)
  | [] => .ok none
  | (key, value) :: rest => do if ← test key then return some value else findKey? test rest

/-- Whether some item satisfies a test. -/
def anyItem (test : Value → Except Fault Bool) : List Value → Except Fault Bool
  | [] => .ok false
  | x :: rest => do if ← test x then return true else anyItem test rest

/-- Whether every entry of a mapping is found in another. -/
def allEntries (test : Value → Value → Except Fault Bool) (others : List (Value × Value)) :
    List (Value × Value) → Except Fault Bool
  | [] => .ok true
  | (key, value) :: rest => do
    match ← findKey? (test key) others with
    | none => return false
    | some other => if ← test value other then allEntries test others rest else return false

/-- Whether every item of a set is found in another. -/
def allItems (test : Value → Value → Except Fault Bool) (others : List Value) :
    List Value → Except Fault Bool
  | [] => .ok true
  | x :: rest => do
    if ← anyItem (test x) others then allItems test others rest else return false

/-- Equality of values whose parts are nested less deep than the first argument. -/
def equalWithin (s : Store) : Nat → Value → Value → Except Fault Bool
  | 0, _, _ => .error .tooDeep
  | depth + 1, a, b =>
    let same (x y : Value) : Except Fault Bool :=
      if x == y then .ok true else equalWithin s depth x y
    match a, b with
    | .scalar x, .scalar y => .ok (x.equal y)
    | .ref p, .ref q =>
      match s.cell? p, s.cell? q with
      | some (.list xs), some (.list ys) =>
        if xs.length = ys.length then allPairs same xs ys else .ok false
      | some (.tuple xs), some (.tuple ys) => do
        return (← allPairs same xs ys) && xs.length == ys.length
      | some (.set xs), some (.set ys) =>
        if xs.length = ys.length then allItems same ys xs else .ok false
      | some (.map xs), some (.map ys) =>
        if xs.length = ys.length then allEntries same ys xs else .ok false
      | some (.date d), some (.date e) => .ok (d == e)
      | some (.time t), some (.time u) => .ok (t.equal u)
      | some (.field f), some (.field g) =>
        allPairs same f.attributes g.attributes
      | some (.schema f), some (.schema g) => same f g
      | some (.resource r), some (.resource t) =>
        allPairs same r.attributes t.attributes
      | some .object, some .object => .ok (p == q)
      | _, _ => .ok false
    | _, _ => .ok false

/-- Whether two values are equal. Parts that do not contain themselves are nested less deep than
there are places. -/
def equal (s : Store) (a b : Value) : Except Fault Bool := equalWithin s (s.size + 2) a b

/-- Whether two values are one key of a mapping. -/
def sameKey (s : Store) (a b : Value) : Bool :=
  a == b || match s.equal a b with
    | .ok found => found
    | .error _ => false

/-- Whether a value can be a key: what can change its parts cannot. The first argument bounds the
nesting of tuples. -/
def hashableWithin (s : Store) : Nat → Value → Bool
  | 0, _ => false
  | depth + 1, v =>
    match s.deref? v with
    | none => true
    | some (.tuple items) => items.all (hashableWithin s depth)
    | some (.date _) | some (.time _) | some .object => true
    | some _ => false

/-- Whether a value can be a key of a mapping. -/
def hashable (s : Store) (v : Value) : Bool := hashableWithin s (s.size + 1) v

/-! ## Entries of a mapping -/

/-- The value behind a key. -/
def lookup? (s : Store) (entries : List (Value × Value)) (key : Value) : Option Value :=
  (entries.find? fun entry => s.sameKey entry.1 key).map Prod.snd

/-- Puts a value behind a key: at the key's place if it is there, and at the end otherwise. -/
def insert (s : Store) (entries : List (Value × Value)) (key value : Value) :
    List (Value × Value) :=
  match entries with
  | [] => [(key, value)]
  | entry :: rest =>
    if s.sameKey entry.1 key then (entry.1, value) :: rest
    else entry :: insert s rest key value

/-- The entries without a key. -/
def erase (s : Store) (entries : List (Value × Value)) (key : Value) : List (Value × Value) :=
  entries.filter fun entry => !s.sameKey entry.1 key

/-- Entries with keys that may repeat, as a mapping holds them: the first place and the last
value. -/
def collect (s : Store) (entries : List (Value × Value)) : List (Value × Value) :=
  entries.foldl (fun found entry => s.insert found entry.1 entry.2) []

/-- The items of a set that is given items which may repeat. -/
def distinct (s : Store) (items : List Value) : List Value :=
  items.foldl (fun found x => if found.any (s.sameKey · x) then found else found ++ [x]) []

end Store

/-- The value behind a key that is or passes for a text. -/
def lookupText? (entries : List (Value × Value)) (key : Text) : Option Value :=
  (entries.find? fun entry => entry.1.asText? == some key).map Prod.snd

end SwaggerDoc
