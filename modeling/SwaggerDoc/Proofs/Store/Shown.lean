import SwaggerDoc.Proofs.Outcome
import SwaggerDoc.Proofs.Store.Reached

/-!
Values show the same in messages wherever they are held.

The depth to which a value is shown is never reached: the containers around a part are at different
places, and so are the models between two of them. So a closed store shows what it holds as every
store does that has more (`Closed.shown_of_extends`, `Closed.written_of_extends`).
-/

namespace SwaggerDoc

namespace Store

variable {s u : Store}

/-! ## The bound of the depth does not matter -/

/-- The surroundings are filled places, all different. -/
structure Surrounded (s : Store) (around : Surroundings) : Prop where
  containers_nodup : around.containers.Nodup
  containers_filled : ∀ p ∈ around.containers, p < s.size
  models_nodup : around.models.Nodup
  models_filled : ∀ p ∈ around.models, p < s.size

theorem surrounded_none (s : Store) : s.Surrounded .none := ⟨.nil, nofun, .nil, nofun⟩

variable {around : Surroundings} {p : Place}

theorem Surrounded.enter (surrounded : s.Surrounded around) (filled : p < s.size)
    (fresh : around.containers.contains p = false) : s.Surrounded (around.enter p) where
  containers_nodup := List.nodup_cons.mpr ⟨by simpa using fresh, surrounded.containers_nodup⟩
  containers_filled := List.forall_mem_cons.mpr ⟨filled, surrounded.containers_filled⟩
  models_nodup := .nil
  models_filled := nofun

theorem Surrounded.enterModel (surrounded : s.Surrounded around) (filled : p < s.size)
    (fresh : around.models.contains p = false) : s.Surrounded (around.enterModel p) where
  containers_nodup := surrounded.containers_nodup
  containers_filled := surrounded.containers_filled
  models_nodup := List.nodup_cons.mpr ⟨by simpa using fresh, surrounded.models_nodup⟩
  models_filled := List.forall_mem_cons.mpr ⟨filled, surrounded.models_filled⟩

/-- There is no room for surroundings that are longer than the bound of the depth. -/
theorem Surrounded.enough (surrounded : s.Surrounded around) :
    around.containers.length ≤ s.size ∧ around.models.length ≤ s.size :=
  ⟨length_le_size surrounded.containers_nodup surrounded.containers_filled,
    length_le_size surrounded.models_nodup surrounded.models_filled⟩

/-- The depth is enough for whatever can be inside the surroundings: every container has room for
all models. -/
def IsDeepEnough (s : Store) (around : Surroundings) (depth : Nat) : Prop :=
  s.size * (s.size + 1) + s.size <
    depth + around.containers.length * (s.size + 1) + around.models.length

theorem IsDeepEnough.enter {depth : Nat} (enough : s.IsDeepEnough around (depth + 1))
    (surrounded : s.Surrounded around) (p : Place) : s.IsDeepEnough (around.enter p) depth := by
  have room := surrounded.enough.2
  simp only [IsDeepEnough, Surroundings.enter, List.length_cons, List.length_nil,
    Nat.add_mul _ _ (s.size + 1)] at enough ⊢
  omega

theorem IsDeepEnough.enterModel {depth : Nat} (enough : s.IsDeepEnough around (depth + 1))
    (p : Place) : s.IsDeepEnough (around.enterModel p) depth := by
  simp only [IsDeepEnough, Surroundings.enterModel, List.length_cons] at enough ⊢
  omega

theorem shownWithin_succ {depth : Nat} (surrounded : s.Surrounded around)
    (enough : s.IsDeepEnough around depth) (v : Value) :
    s.shownWithin (depth + 1) around v = s.shownWithin depth around v := by
  induction depth generalizing around v with
  | zero =>
    have room := surrounded.enough
    have containers := Nat.mul_le_mul_right (s.size + 1) room.1
    simp only [IsDeepEnough] at enough
    omega
  | succ depth ih =>
    cases v with
    | scalar x => rfl
    | ref p =>
      rw [shownWithin, shownWithin]
      cases cell : s.cell? p with
      | none => rfl
      | some c =>
        have filled := lt_size_of_cell? cell
        have inside (fresh : around.containers.contains p = false) :
            s.shownWithin (depth + 1) (around.enter p) = s.shownWithin depth (around.enter p) :=
          funext (ih (surrounded.enter filled fresh) (enough.enter surrounded p))
        have insideModel (fresh : around.models.contains p = false) :
            s.shownWithin (depth + 1) (around.enterModel p) =
              s.shownWithin depth (around.enterModel p) :=
          funext (ih (surrounded.enterModel filled fresh) (enough.enterModel p))
        cases again : around.containers.contains p with
        | true =>
          cases againModel : around.models.contains p with
          | true => cases c <;> rfl
          | false => cases c <;> simp only [insideModel againModel] <;> rfl
        | false =>
          cases againModel : around.models.contains p with
          | true => cases c <;> simp only [inside again] <;> rfl
          | false => cases c <;> simp only [inside again, insideModel againModel]

theorem shownWithin_of_le {depth : Nat} (enough : s.shownDepth ≤ depth) (v : Value) :
    s.shownWithin depth .none v = s.shown v := by
  induction enough with
  | refl => rfl
  | step enough ih =>
    rw [← ih]
    refine shownWithin_succ s.surrounded_none ?_ v
    have deep : s.shownDepth ≤ _ := enough
    simp only [shownDepth, Nat.add_mul _ _ (s.size + 1)] at deep
    simp only [IsDeepEnough, Surroundings.none, List.length_nil]
    omega

/-! ## Extensions -/

theorem Closed.holds_attributes (closed : s.Closed) {c : Cell} (cell : s.cell? p = some c)
    {attributes : List (Text × Value)} (model : c.attributes? = some attributes) :
    ∀ e ∈ attributes, s.Holds e.2 :=
  fun _ member => closed.holds_part cell _ (mem_parts_of_attributes? model member)

theorem Closed.shownWithin_of_extends (closed : s.Closed) (extends' : s.Extends u)
    (depth : Nat) (around : Surroundings) {v : Value} (held : s.Holds v) :
    u.shownWithin depth around v = s.shownWithin depth around v := by
  induction depth generalizing around v with
  | zero => cases v <;> rfl
  | succ depth ih =>
    cases v with
    | scalar x => rfl
    | ref p =>
      rw [shownWithin, shownWithin, extends'.cell?_eq p (holds_ref.mp held)]
      cases cell : s.cell? p with
      | none => rfl
      | some c =>
        have parts := closed.holds_part cell
        have all (around : Surroundings) (items : List Value) (held : ∀ v ∈ items, s.Holds v) :
            items.mapM (u.shownWithin depth around) = items.mapM (s.shownWithin depth around) :=
          Except.mapM_congr fun v member => ih around (held v member)
        cases c with
        | list items | tuple items | set items => simp only [all _ items parts]
        | map entries =>
          simp only []
          congr 2
          refine Except.mapM_congr fun e member => ?_
          have key := parts e.1 (List.mem_flatMap.mpr ⟨e, member, by simp⟩)
          have value := parts e.2 (List.mem_flatMap.mpr ⟨e, member, by simp⟩)
          simp only [ih _ key, ih _ value]
        | field | schema | resource =>
          have held := closed.holds_attributes cell rfl
          simp only []
          congr 2
          refine Except.mapM_congr fun e member => ?_
          simp only [ih _ (held e member)]
        | date | time | object => rfl

/-- What is held shows the same in a store that has more. -/
theorem Closed.shown_of_extends (closed : s.Closed) (extends' : s.Extends u) {v : Value}
    (held : s.Holds v) : u.shown v = s.shown v := by
  have deeper : s.shownDepth ≤ u.shownDepth :=
    Nat.mul_le_mul (Nat.succ_le_succ extends'.size_le) (Nat.succ_le_succ extends'.size_le)
  rw [shown, closed.shownWithin_of_extends extends' _ _ held, shownWithin_of_le deeper]

theorem Closed.writtenAttributes_of_extends (closed : s.Closed) (extends' : s.Extends u)
    {attributes : List (Text × Value)} (held : ∀ e ∈ attributes, s.Holds e.2) :
    u.writtenAttributes attributes = s.writtenAttributes attributes := by
  unfold writtenAttributes
  congr 1
  refine Except.mapM_congr fun e member => ?_
  simp only [closed.shown_of_extends extends' (held e member)]

/-- What is held is written the same in a store that has more. -/
theorem Closed.written_of_extends (closed : s.Closed) (extends' : s.Extends u) {v : Value}
    (held : s.Holds v) : u.written v = s.written v := by
  cases v with
  | scalar x => rfl
  | ref p =>
    have shown := closed.shown_of_extends extends' held
    rw [written, written, extends'.cell?_eq p (holds_ref.mp held), shown]
    cases cell : s.cell? p with
    | none => rfl
    | some c =>
      cases c with
      | field | schema | resource =>
        exact closed.writtenAttributes_of_extends extends' (closed.holds_attributes cell rfl)
      | _ => rfl

end Store

end SwaggerDoc
