import Mathlib.Data.List.Nodup
import SwaggerDoc.Proofs.Data
import SwaggerDoc.Store.Tree

/-!
How deep things are nested.

Reading, copying and writing go down into nested things level by level, and an interpreter follows
them only so far: it allows about a thousand calls inside each other, of which a level takes up to
five. How many are left depends on where it stands, but `sureDepth` levels are never too many. What
is nested deeper may be given up, and nothing is said here of when.
-/

namespace SwaggerDoc

/-- So many levels are never too many. -/
def sureDepth : Nat := 100

mutual

/-- The number of containers around the innermost part of data. -/
def Data.depth : Data → Nat
  | .atom _ => 0
  | .list items => depthOfAll items + 1
  | .map entries => depthOfEntries entries + 1

/-- The depth of the deepest of some data. -/
def Data.depthOfAll : List Data → Nat
  | [] => 0
  | d :: rest => max d.depth (depthOfAll rest)

/-- The depth of the deepest entry. -/
def Data.depthOfEntries : List (Text × Data) → Nat
  | [] => 0
  | (_, d) :: rest => max d.depth (depthOfEntries rest)

end

mutual

/-- The number of containers and models around the innermost part of a tree. -/
def Tree.depth : Tree → Nat
  | .scalar _ | .date _ | .time _ | .object | .back _ => 0
  | .list items | .tuple items | .set items => depthOfAll items + 1
  | .map entries | .schema (some entries) => depthOfEntries entries + 1
  | .schema none => 1
  | .field attributes | .resource attributes => depthOfAttributes attributes + 1

/-- The depth of the deepest of some trees. -/
def Tree.depthOfAll : List Tree → Nat
  | [] => 0
  | t :: rest => max t.depth (depthOfAll rest)

/-- The depth of the deepest entry. -/
def Tree.depthOfEntries : List (Tree × Tree) → Nat
  | [] => 0
  | (k, t) :: rest => max (max k.depth t.depth) (depthOfEntries rest)

/-- The depth of the deepest attribute. -/
def Tree.depthOfAttributes : List (Text × Tree) → Nat
  | [] => 0
  | (_, t) :: rest => max t.depth (depthOfAttributes rest)

end

/-- Ways from an element along a relation pass so many elements at most, as long as they pass none
twice. -/
def NestsWithin {α : Type} (R : α → α → Prop) (n : Nat) (a : α) : Prop :=
  ∀ way : List α, (a :: way).IsChain R → (a :: way).Nodup → way.length < n

end SwaggerDoc
