import SwaggerDoc.Proofs.Store.Unfold

/-!
What placed shapes show.

A shape determines what its places show in the end, by what the values that come into it show in
the store that holds them. Where it is placed does not matter: any closed store that has as much
will do.
-/

namespace SwaggerDoc

namespace Shape

mutual

/-- What a shape shows, with its values taken from the store. -/
def tree (s : Store) : Shape → Tree
  | .value v | .copy v => s.unfold v
  | .list items => .list (treeAll s items)
  | .tuple items => .tuple (treeAll s items)
  | .map entries => .map (treeEntries s entries)

/-- What shapes show. -/
def treeAll (s : Store) : List Shape → List Tree
  | [] => []
  | shape :: rest => shape.tree s :: treeAll s rest

/-- What entries show. -/
def treeEntries (s : Store) : List (Value × Shape) → List (Tree × Tree)
  | [] => []
  | (key, shape) :: rest => (s.unfold key, shape.tree s) :: treeEntries s rest

end

mutual

/-- Wherever a shape is placed, it shows its tree. -/
theorem unfold_place {s u : Store} (closed : s.Closed) (extends' : s.Extends u)
    (closed' : u.Closed) : {shape : Shape} → shape.HeldBy s →
      (shape.place u).2.unfold (shape.place u).1 = shape.tree s
  | .value v, held => closed.unfold_of_extends extends' (held.shared_value)
  | .copy v, held => by
    have source : s.Holds v := held.copied_copy
    exact (closed'.unfold_copy (source.mono extends')).trans
      (closed.unfold_of_extends extends' source)
  | .list items, held => by
    obtain ⟨closed'', inside⟩ := closed_placeAll closed' (held.of_list.mono extends')
    have shown := closed''.unfold_alloc_list inside
    rw [unfold_placeAll closed extends' closed' held.of_list] at shown
    exact shown
  | .tuple items, held => by
    obtain ⟨closed'', inside⟩ := closed_placeAll closed' (held.of_tuple.mono extends')
    have shown := closed''.unfold_alloc_tuple inside
    rw [unfold_placeAll closed extends' closed' held.of_tuple] at shown
    exact shown
  | .map entries, held => by
    obtain ⟨closed'', inside⟩ := closed_placeEntries closed' (held.of_map.mono extends')
    have shown := closed''.unfold_alloc_map inside
    rw [unfold_placeEntries closed extends' closed' held.of_map] at shown
    exact shown

theorem unfold_placeAll {s u : Store} (closed : s.Closed) (extends' : s.Extends u)
    (closed' : u.Closed) : {shapes : List Shape} → AllHeldBy s shapes →
      (placeAll u shapes).1.map (placeAll u shapes).2.unfold = treeAll s shapes
  | [], _ => rfl
  | shape :: rest, held => by
    have placed := extends_place shape u
    obtain ⟨closed'', first⟩ := closed_place closed' (held.head.mono extends')
    have head := unfold_place closed extends' closed' held.head
    have tail := unfold_placeAll closed (extends'.trans placed) closed'' held.tail
    have later := closed''.unfold_of_extends (extends_placeAll rest (shape.place u).2) first
    rw [treeAll, ← tail, ← head, ← later]
    rfl

theorem unfold_placeEntries {s u : Store} (closed : s.Closed) (extends' : s.Extends u)
    (closed' : u.Closed) : {entries : List (Value × Shape)} → EntriesHeldBy s entries →
      (placeEntries u entries).1.map (fun e =>
          ((placeEntries u entries).2.unfold e.1, (placeEntries u entries).2.unfold e.2)) =
        treeEntries s entries
  | [], _ => rfl
  | (key, shape) :: rest, held => by
    have placed := extends_place shape u
    have others := extends_placeEntries rest (shape.place u).2
    obtain ⟨closed'', first⟩ := closed_place closed' (held.head.mono extends')
    have front := closed.unfold_of_extends (extends'.trans (placed.trans others)) held.key
    have head := unfold_place closed extends' closed' held.head
    have tail := unfold_placeEntries closed (extends'.trans placed) closed'' held.tail
    have later := closed''.unfold_of_extends others first
    rw [treeEntries, ← tail, ← head, ← later, ← front]
    rfl

end

end Shape

end SwaggerDoc
