import SwaggerDoc.Shape

/-!
The values that come into shapes.

A value comes into a shape as it is, as a key among them, or as a deep copy. `Takes` says what the
values of either sort are like.
-/

namespace SwaggerDoc

/-- The scalar is neither a type tag nor a method. -/
def Scalar.isPlain : Scalar → Bool
  | .fieldType _ | .method _ => false
  | _ => true

namespace Shape

mutual

/-- The values that come into a shape as they are, the keys of its mappings among them. -/
def shared : Shape → List Value
  | .value v => [v]
  | .copy _ => []
  | .list items | .tuple items => sharedInAll items
  | .map entries => sharedInEntries entries

/-- The values that come into shapes as they are. -/
def sharedInAll : List Shape → List Value
  | [] => []
  | shape :: rest => shape.shared ++ sharedInAll rest

/-- The values that come into entries as they are, the keys among them. -/
def sharedInEntries : List (Value × Shape) → List Value
  | [] => []
  | (key, shape) :: rest => key :: shape.shared ++ sharedInEntries rest

end

mutual

/-- The values that a shape has copies of. -/
def copied : Shape → List Value
  | .value _ => []
  | .copy v => [v]
  | .list items | .tuple items => copiedInAll items
  | .map entries => copiedInEntries entries

/-- The values that shapes have copies of. -/
def copiedInAll : List Shape → List Value
  | [] => []
  | shape :: rest => shape.copied ++ copiedInAll rest

/-- The values that entries have copies of. -/
def copiedInEntries : List (Value × Shape) → List Value
  | [] => []
  | (_, shape) :: rest => shape.copied ++ copiedInEntries rest

end

section Membership

variable {v : Value}

theorem mem_sharedInAll {shapes : List Shape} :
    v ∈ sharedInAll shapes ↔ ∃ shape ∈ shapes, v ∈ shape.shared := by
  induction shapes with
  | nil => simp [sharedInAll]
  | cons shape rest ih => simp [sharedInAll, ih]

theorem mem_sharedInEntries {entries : List (Value × Shape)} :
    v ∈ sharedInEntries entries ↔ ∃ e ∈ entries, v = e.1 ∨ v ∈ e.2.shared := by
  induction entries with
  | nil => simp [sharedInEntries]
  | cons entry rest ih =>
    obtain ⟨key, shape⟩ := entry
    simp [sharedInEntries, ih, or_assoc]

theorem mem_copiedInAll {shapes : List Shape} :
    v ∈ copiedInAll shapes ↔ ∃ shape ∈ shapes, v ∈ shape.copied := by
  induction shapes with
  | nil => simp [copiedInAll]
  | cons shape rest ih => simp [copiedInAll, ih]

theorem mem_copiedInEntries {entries : List (Value × Shape)} :
    v ∈ copiedInEntries entries ↔ ∃ e ∈ entries, v ∈ e.2.copied := by
  induction entries with
  | nil => simp [copiedInEntries]
  | cons entry rest ih =>
    obtain ⟨key, shape⟩ := entry
    simp [copiedInEntries, ih]

end Membership

section Takes

variable (shared copied : Value → Prop)

/-- The values that come into the shape are as said. -/
structure Takes (shape : Shape) : Prop where
  shared : ∀ v ∈ shape.shared, shared v
  copied : ∀ v ∈ shape.copied, copied v

/-- The values that come into the shapes are as said. -/
structure AllTake (shapes : List Shape) : Prop where
  shared : ∀ v ∈ sharedInAll shapes, shared v
  copied : ∀ v ∈ copiedInAll shapes, copied v

/-- The values that come into the entries are as said. -/
structure EntriesTake (entries : List (Value × Shape)) : Prop where
  shared : ∀ v ∈ sharedInEntries entries, shared v
  copied : ∀ v ∈ copiedInEntries entries, copied v

end Takes

section Parts

variable {shared copied shared' copied' : Value → Prop} {shape : Shape} {items : List Shape}
  {entries : List (Value × Shape)} {k : Value}

theorem Takes.imp (takes : shape.Takes shared copied) (weaker : ∀ v, shared v → shared' v)
    (weaker' : ∀ v, copied v → copied' v) : shape.Takes shared' copied' where
  shared v member := weaker v (takes.shared v member)
  copied v member := weaker' v (takes.copied v member)

theorem AllTake.imp (takes : AllTake shared copied items) (weaker : ∀ v, shared v → shared' v)
    (weaker' : ∀ v, copied v → copied' v) : AllTake shared' copied' items where
  shared v member := weaker v (takes.shared v member)
  copied v member := weaker' v (takes.copied v member)

theorem EntriesTake.imp (takes : EntriesTake shared copied entries)
    (weaker : ∀ v, shared v → shared' v) (weaker' : ∀ v, copied v → copied' v) :
    EntriesTake shared' copied' entries where
  shared v member := weaker v (takes.shared v member)
  copied v member := weaker' v (takes.copied v member)

theorem Takes.of_list (takes : (Shape.list items).Takes shared copied) :
    AllTake shared copied items :=
  ⟨takes.shared, takes.copied⟩

theorem Takes.of_tuple (takes : (Shape.tuple items).Takes shared copied) :
    AllTake shared copied items :=
  ⟨takes.shared, takes.copied⟩

theorem Takes.of_map (takes : (Shape.map entries).Takes shared copied) :
    EntriesTake shared copied entries :=
  ⟨takes.shared, takes.copied⟩

theorem Takes.shared_value {v : Value} (takes : (Shape.value v).Takes shared copied) : shared v :=
  takes.shared v (List.mem_singleton_self v)

theorem Takes.copied_copy {v : Value} (takes : (Shape.copy v).Takes shared copied) : copied v :=
  takes.copied v (List.mem_singleton_self v)

theorem AllTake.head (takes : AllTake shared copied (shape :: items)) :
    shape.Takes shared copied where
  shared v member := takes.shared v (List.mem_append_left _ member)
  copied v member := takes.copied v (List.mem_append_left _ member)

theorem AllTake.tail (takes : AllTake shared copied (shape :: items)) :
    AllTake shared copied items where
  shared v member := takes.shared v (List.mem_append_right _ member)
  copied v member := takes.copied v (List.mem_append_right _ member)

theorem EntriesTake.key (takes : EntriesTake shared copied ((k, shape) :: entries)) : shared k :=
  takes.shared k (by simp [sharedInEntries])

theorem EntriesTake.head (takes : EntriesTake shared copied ((k, shape) :: entries)) :
    shape.Takes shared copied where
  shared v member := takes.shared v (by simp [sharedInEntries, member])
  copied v member := takes.copied v (List.mem_append_left _ member)

theorem EntriesTake.tail (takes : EntriesTake shared copied ((k, shape) :: entries)) :
    EntriesTake shared copied entries where
  shared v member := takes.shared v (by simp [sharedInEntries, member])
  copied v member := takes.copied v (List.mem_append_right _ member)

theorem takes_value {v : Value} (comes : shared v) : (Shape.value v).Takes shared copied where
  shared w member := by
    rw [List.mem_singleton.mp member]
    exact comes
  copied := nofun

theorem takes_copy {v : Value} (comes : copied v) : (Shape.copy v).Takes shared copied where
  shared := nofun
  copied w member := by
    rw [List.mem_singleton.mp member]
    exact comes

theorem takes_list (inside : ∀ e ∈ items, e.Takes shared copied) :
    (Shape.list items).Takes shared copied where
  shared v member := by
    obtain ⟨e, listed, comes⟩ := mem_sharedInAll.mp member
    exact (inside e listed).shared v comes
  copied v member := by
    obtain ⟨e, listed, comes⟩ := mem_copiedInAll.mp member
    exact (inside e listed).copied v comes

theorem takes_tuple (inside : ∀ e ∈ items, e.Takes shared copied) :
    (Shape.tuple items).Takes shared copied where
  shared v member := by
    obtain ⟨e, listed, comes⟩ := mem_sharedInAll.mp member
    exact (inside e listed).shared v comes
  copied v member := by
    obtain ⟨e, listed, comes⟩ := mem_copiedInAll.mp member
    exact (inside e listed).copied v comes

theorem takes_map (inside : ∀ e ∈ entries, shared e.1 ∧ e.2.Takes shared copied) :
    (Shape.map entries).Takes shared copied where
  shared v member := by
    obtain ⟨e, listed, rfl | comes⟩ := mem_sharedInEntries.mp member
    · exact (inside e listed).1
    · exact (inside e listed).2.shared v comes
  copied v member := by
    obtain ⟨e, listed, comes⟩ := mem_copiedInEntries.mp member
    exact (inside e listed).2.copied v comes

theorem takes_record {record : List (String × Shape)} (texts : ∀ t, shared (.ofText t))
    (inside : ∀ e ∈ record, e.2.Takes shared copied) :
    (Shape.record record).Takes shared copied := by
  refine takes_map fun e listed => ?_
  obtain ⟨f, member, rfl⟩ := List.mem_map.mp listed
  exact ⟨texts _, inside f member⟩

end Parts

end Shape

end SwaggerDoc
