import SwaggerDoc.Text.Basic

/-!
Names that resemble a misspelt one.

Two names share their longest common part, and what they share before and behind it in the same way.
They resemble each other if the shared characters make up at least three fifths of both names
together.
-/

namespace SwaggerDoc.CommandLine

/-- A part that two texts have in common: where it begins in each, and its length. -/
structure Shared where
  left : Nat
  right : Nat
  length : Nat

/-- The number of characters that two texts have in common at their beginnings. -/
def commonLength : Text → Text → Nat
  | a :: as, b :: bs => if a = b then commonLength as bs + 1 else 0
  | _, _ => 0

/-- The longest part that two texts have in common: of several, the first in the first text, and
then in the second. -/
def longestShared (a b : Text) : Shared :=
  let candidates := (List.range a.length).flatMap fun i =>
    (List.range b.length).map fun j => (⟨i, j, commonLength (a.drop i) (b.drop j)⟩ : Shared)
  candidates.foldl (fun best c => if c.length > best.length then c else best) ⟨0, 0, 0⟩

/-- The number of characters that two texts share. The first argument bounds the number of shared
parts. -/
def sharedLength : Nat → Text → Text → Nat
  | 0, _, _ => 0
  | n + 1, a, b =>
    let s := longestShared a b
    if s.length = 0 then 0
    else
      s.length + sharedLength n (a.take s.left) (b.take s.right)
        + sharedLength n (a.drop (s.left + s.length)) (b.drop (s.right + s.length))

/-- How much two texts resemble each other, as a fraction: what they share, and how long they are
together. -/
structure Likeness where
  shared : Nat
  total : Nat

namespace Likeness

/-- The likeness of two texts. -/
def between (a b : Text) : Likeness := ⟨sharedLength (a.length + 1) a b, a.length + b.length⟩

/-- Whether the shared characters make up three fifths of both texts. -/
def isEnough (l : Likeness) : Bool := 10 * l.shared ≥ 3 * l.total

/-- Whether one likeness is greater than another one. -/
def exceeds (l m : Likeness) : Bool := l.shared * m.total > m.shared * l.total

end Likeness

/-- Whether a text does not come behind another one in alphabetical order. -/
def inOrder : Text → Text → Bool
  | [], _ => true
  | _, [] => false
  | a :: as, b :: bs => a < b || (a = b && inOrder as bs)

/-- Whether the first of two names resembles a misspelt one at least as much as the second does. Of
two that resemble it equally the one further behind in alphabetical order is preferred. -/
def preferred (name a b : Text) : Bool :=
  let left := Likeness.between a name
  let right := Likeness.between b name
  left.exceeds right || (!right.exceeds left && inOrder b a)

/-- How many similar names are offered at most. -/
def offered : Nat := 3

/-- The known names that resemble a misspelt one most, in alphabetical order. -/
def similar (known : List Text) (name : Text) : List Text :=
  let candidates := known.filter fun candidate => (Likeness.between candidate name).isEnough
  ((candidates.mergeSort (preferred name)).take offered).mergeSort inOrder

end SwaggerDoc.CommandLine
