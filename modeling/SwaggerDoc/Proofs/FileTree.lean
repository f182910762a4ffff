import SwaggerDoc.FileTree

/-!
What the operations on files leave as it is.

Making directories only adds directories where nothing was. Writing changes what is at one location,
and whatever could be followed before the write can be followed after it.
-/

namespace SwaggerDoc

namespace FileTree

variable {t made : FileTree} {l other : Location} {e : FileEntry} {p : Path}

/-- The content of the file at a location, if there is one. -/
def content? (t : FileTree) (l : Location) : Option Octets :=
  match t.entry? l with
  | some (.file content) => some content
  | _ => none

/-- Nothing is gone or changed, and nothing is new but directories. -/
def AddsDirectories (before after : FileTree) : Prop :=
  ∀ l, after.entry? l = before.entry? l ∨
    before.entry? l = none ∧ after.entry? l = some .directory

namespace AddsDirectories

theorem refl (t : FileTree) : t.AddsDirectories t := fun _ => .inl rfl

theorem trans {a b c : FileTree} (first : a.AddsDirectories b) (second : b.AddsDirectories c) :
    a.AddsDirectories c := by
  intro l
  rcases second l with same | ⟨absent, added⟩
  · rw [same]
    exact first l
  · rcases first l with same | ⟨-, present⟩
    · exact .inr ⟨same ▸ absent, added⟩
    · rw [absent] at present
      cases present

theorem entry?_eq (adds : t.AddsDirectories made) (present : t.entry? l = some e) :
    made.entry? l = some e := by
  rcases adds l with same | ⟨absent, -⟩
  · rw [same, present]
  · rw [absent] at present
    cases present

theorem content?_eq (adds : t.AddsDirectories made) (l : Location) :
    made.content? l = t.content? l := by
  rcases adds l with same | ⟨absent, added⟩
  · rw [content?, content?, same]
  · rw [content?, content?, absent, added]

end AddsDirectories

/-! ## Putting one entry -/

section Replaced

variable {entries : List (Location × FileEntry)}

theorem lookup_replaced_of_ne (different : other ≠ l) :
    (entries.map fun entry => if entry.1 = l then (l, e) else entry).lookup other =
      entries.lookup other := by
  have missed : (other == l) = false := beq_eq_false_iff_ne.mpr different
  induction entries with
  | nil => rfl
  | cons entry rest ih =>
    obtain ⟨key, old⟩ := entry
    rw [List.map_cons]
    by_cases replaced : key = l
    · subst replaced
      rw [if_pos rfl, List.lookup_cons, List.lookup_cons, missed, ih]
    · rw [if_neg replaced, List.lookup_cons, List.lookup_cons, ih]

theorem lookup_replaced_self (found : entries.any (·.1 == l) = true) :
    (entries.map fun entry => if entry.1 = l then (l, e) else entry).lookup l = some e := by
  induction entries with
  | nil => cases found
  | cons entry rest ih =>
    obtain ⟨key, old⟩ := entry
    rw [List.map_cons]
    by_cases replaced : key = l
    · rw [if_pos replaced, List.lookup_cons_self]
    · have missed : (l == key) = false := beq_eq_false_iff_ne.mpr (Ne.symm replaced)
      have later : rest.any (·.1 == l) = true := by
        simpa [beq_eq_false_iff_ne.mpr replaced] using found
      rw [if_neg replaced, List.lookup_cons, missed]
      exact ih later

end Replaced

theorem lookup_put_of_ne (different : other ≠ l) :
    (t.put l e).entries.lookup other = t.entries.lookup other := by
  unfold put
  split
  · exact lookup_replaced_of_ne different
  · have missed : (other == l) = false := beq_eq_false_iff_ne.mpr different
    rw [List.lookup_append, List.lookup_cons, missed, List.lookup_nil, Option.or_none]

theorem lookup_put_self : (t.put l e).entries.lookup l = some e := by
  unfold put
  split
  · next found => exact lookup_replaced_self found
  · next absent =>
    have missed : t.entries.lookup l = none := by
      rw [List.lookup_eq_none_iff]
      intro entry listed
      rw [bne_iff_ne]
      rintro rfl
      exact absent (List.any_eq_true.mpr ⟨entry, listed, beq_self_eq_true _⟩)
    rw [List.lookup_append, missed, Option.none_or, List.lookup_cons_self]

theorem entry?_put_of_ne (different : other ≠ l) :
    FileTree.entry? (t.put l e) other = t.entry? other := by
  rw [FileTree.entry?, FileTree.entry?, lookup_put_of_ne different]

theorem entry?_put_self (inside : t.entry? l ≠ some .directory) :
    FileTree.entry? (t.put l e) l = some e := by
  have apart : ¬(Location.isAround l || decide (l = [[47]])) = true := by
    intro around
    rw [FileTree.entry?, if_pos around] at inside
    exact inside rfl
  rw [FileTree.entry?, if_neg apart, lookup_put_self]

/-! ## Making directories -/

theorem addsDirectories_put (absent : t.entry? l = none) :
    t.AddsDirectories (t.put l .directory) := by
  intro other
  by_cases same : other = l
  · subst same
    exact .inr ⟨absent, entry?_put_self (by simp [absent])⟩
  · exact .inl (entry?_put_of_ne same)

theorem addsDirectories_makeDirectory {n : Nat} {made' : FileTree}
    (done : t.makeDirectory made p n = .ok made') : made.AddsDirectories made' := by
  unfold makeDirectory at done
  split at done
  · obtain rfl := Except.ok.inj done
    exact .refl _
  · cases done
  · cases done
  · split at done
    · obtain rfl := Except.ok.inj done
      exact .refl _
    · cases done
    · next absent =>
      obtain rfl := Except.ok.inj done
      exact addsDirectories_put absent

theorem addsDirectories_makeEach (ns : List Nat) :
    made.AddsDirectories (t.makeEach p made ns).1 := by
  induction ns generalizing made with
  | nil => exact .refl _
  | cons n ns ih =>
    unfold makeEach
    split
    · exact .refl _
    · next done => exact (addsDirectories_makeDirectory done).trans ih

/-- Whatever directories are made on a path, and whether or not all can be made, nothing else
changes. -/
theorem addsDirectories_withDirectories (t : FileTree) (p : Path) :
    t.AddsDirectories (t.withDirectories p).1 :=
  addsDirectories_makeEach _

/-! ## Writing -/

theorem follow_put_file {content : Octets} {steps : List Text} {start target : Location}
    (inside : t.entry? l ≠ some .directory) (reached : t.follow start steps = .ok target) :
    (t.put l (.file content)).follow start steps = .ok target := by
  induction steps generalizing start with
  | nil => exact reached
  | cons step rest ih =>
    rw [follow] at reached ⊢
    split at reached
    · cases reached
    · cases reached
    · next directory =>
      have passed : start ≠ l := fun same => inside (same ▸ directory)
      rw [entry?_put_of_ne passed, directory]
      split at reached
      · cases reached
      · exact ih reached

theorem locate_put_file {content : Octets} {target : Location}
    (inside : t.entry? l ≠ some .directory) (reached : t.locate p = .ok target) :
    (t.put l (.file content)).locate p = .ok target := by
  unfold locate followFrom at reached ⊢
  split at reached
  · cases reached
  · next short =>
    rw [if_neg short]
    exact follow_put_file inside reached

/-- Writing changes the file that the path leads to, before and after, and no other location. -/
theorem write_eq {content : Octets} {written : FileTree} (done : t.write p content = .ok written) :
    ∃ target, written.locate p = .ok target ∧ written.content? target = some content ∧
      ∀ l ≠ target, written.entry? l = t.entry? l := by
  unfold write at done
  split at done
  · cases done
  · cases done
  · next target reached =>
    split at done
    · cases done
    · next inside =>
      obtain rfl := Except.ok.inj done
      refine ⟨target, locate_put_file inside reached, ?_, fun l different => ?_⟩
      · rw [content?, entry?_put_self inside]
      · exact entry?_put_of_ne different

end FileTree

end SwaggerDoc
