import SwaggerDoc.Proofs.Outcome
import SwaggerDoc.Proofs.Store.Closed
import SwaggerDoc.Session.Basic

/-!
What following a way and changing what lies behind it can do.

A way leads from parts to parts, so whatever holds of scalars and passes on to parts holds at its
end (`reach_induction`). A change behind a way replaces one cell that is no tuple, or gives an
attribute to one model, and nothing comes in but what was there and what is added (`EditedAt`).
-/

namespace SwaggerDoc

theorem FieldCell.attributes_of_ofAttributes? {attributes : List Value} {f : FieldCell}
    (made : FieldCell.ofAttributes? attributes = some f) : f.attributes = attributes := by
  unfold FieldCell.ofAttributes? at made
  split at made
  · obtain rfl := Option.some.inj made
    rfl
  · cases made

theorem ResourceCell.attributes_of_ofAttributes? {attributes : List Value} {r : ResourceCell}
    (made : ResourceCell.ofAttributes? attributes = some r) : r.attributes = attributes := by
  unfold ResourceCell.ofAttributes? at made
  split at made
  · obtain rfl := Option.some.inj made
    rfl
  · cases made

namespace Store

variable {s t : Store} {v w key new : Value} {way : Way}

/-- The value points to a cell with the part inside, or to a model that has been given it. -/
def LeadsTo (s : Store) (v w : Value) : Prop :=
  ∃ p c, v = .ref p ∧ s.cell? p = some c ∧
    (w ∈ c.parts ∨ c.isTuple = false ∧ w ∈ (s.givenTo p).map Prod.snd)

theorem mem_of_itemOf {items : List Value} (found : itemOf items key = .ok w) : w ∈ items := by
  obtain ⟨n, -, found⟩ := Except.exists_ok_of_bind found
  split at found
  · next item index =>
    obtain rfl := Except.ok.inj found
    exact List.mem_of_getElem? index
  · cases found

theorem part_leads (found : s.part v key = .ok w) : (∃ x, w = .scalar x) ∨ s.LeadsTo v w := by
  unfold part at found
  split at found
  · obtain ⟨n, -, rfl⟩ := List.mem_map.mp (mem_of_itemOf found)
    exact .inl ⟨_, rfl⟩
  · split at found
    · obtain ⟨c, -, rfl⟩ := List.mem_map.mp (mem_of_itemOf found)
      exact .inl ⟨_, rfl⟩
    · cases found
  · next p =>
    split at found
    · next items cell => exact .inr ⟨p, _, rfl, cell, .inl (mem_of_itemOf found)⟩
    · next items cell => exact .inr ⟨p, _, rfl, cell, .inl (mem_of_itemOf found)⟩
    · next entries cell =>
      split at found
      · cases found
      · split at found
        · next looked =>
          obtain rfl := Except.ok.inj found
          obtain ⟨e, entry, rfl⟩ := Option.map_eq_some_iff.mp looked
          have member := List.mem_of_find?_eq_some entry
          exact .inr ⟨p, _, rfl, cell, .inl (List.mem_flatMap.mpr ⟨e, member, by simp⟩)⟩
        · cases found
    · cases found

theorem mem_of_lookup {name : Text} :
    {attributes : List (Text × Value)} → attributes.lookup name = some w → (name, w) ∈ attributes
  | (other, u) :: rest, found => by
    rw [List.lookup_cons] at found
    split at found
    · next same =>
      obtain rfl := Option.some.inj found
      rw [eq_of_beq same]
      exact List.mem_cons_self
    · exact List.mem_cons_of_mem _ (mem_of_lookup found)

theorem attributeNamed_leads {name : Text} (found : s.attributeNamed v name = .ok w) :
    (∃ x, w = .scalar x) ∨ s.LeadsTo v w := by
  unfold attributeNamed at found
  split at found
  · next looked =>
    obtain rfl := Except.ok.inj found
    have member := mem_of_lookup looked
    cases v with
    | scalar x =>
      rw [attributesOf] at member
      split at member
      · simp only [List.mem_cons, Prod.mk.injEq, List.not_mem_nil, or_false] at member
        rcases member with ⟨-, rfl⟩ | ⟨-, rfl⟩
        · exact .inl ⟨_, rfl⟩
        · exact .inl ⟨_, rfl⟩
      · cases member
    | ref p =>
      rw [attributesOf] at member
      split at member
      · simp only [dateParts, List.mem_cons, Prod.mk.injEq, List.not_mem_nil, or_false] at member
        rcases member with ⟨-, rfl⟩ | ⟨-, rfl⟩ | ⟨-, rfl⟩ <;> exact .inl ⟨_, rfl⟩
      · simp only [timeParts, dateParts, List.mem_append, List.mem_cons, Prod.mk.injEq,
          List.not_mem_nil, or_false] at member
        rcases member with (⟨-, rfl⟩ | ⟨-, rfl⟩ | ⟨-, rfl⟩) |
            ⟨-, rfl⟩ | ⟨-, rfl⟩ | ⟨-, rfl⟩ | ⟨-, rfl⟩ <;>
          exact .inl ⟨_, rfl⟩
      · cases found : s.attributes? p with
        | none => simp [found] at member
        | some attributes =>
          rw [found, Option.getD_some] at member
          obtain ⟨c, cell, plain, own | given⟩ := mem_of_attributes? found member
          · exact .inr ⟨p, c, rfl, cell, .inl own⟩
          · exact .inr ⟨p, c, rfl, cell, .inr ⟨plain, List.mem_map.mpr ⟨_, given, rfl⟩⟩⟩
  · cases found

/-- Whatever holds of scalars and passes on to parts holds at the end of a way. -/
theorem reach_induction {holds : Value → Prop} (scalar : ∀ x, holds (.scalar x))
    (leads : ∀ v w, holds v → s.LeadsTo v w → holds w) :
    {way : Way} → {v w : Value} → holds v → s.reach v way = .ok w → holds w
  | [], _, _, start, reached => by
    obtain rfl := Except.ok.inj reached
    exact start
  | .named name :: rest, _, _, start, reached => by
    obtain ⟨u, found, later⟩ := Except.exists_ok_of_bind reached
    refine reach_induction scalar leads ?_ later
    rcases attributeNamed_leads found with ⟨x, rfl⟩ | leads'
    · exact scalar x
    · exact leads _ u start leads'
  | .item key :: rest, _, _, start, reached => by
    obtain ⟨u, found, later⟩ := Except.exists_ok_of_bind reached
    refine reach_induction scalar leads ?_ later
    rcases part_leads found with ⟨x, rfl⟩ | leads'
    · exact scalar x
    · exact leads _ u start leads'

/-! ## Changes -/

/-- A change at a place: its cell, which is no tuple, is replaced by one with nothing inside but
what was there and what is added, or the model there is given an attribute. -/
inductive EditedAt (s : Store) (p : Place) (added : List Value) : Store → Prop
  | write {c d : Cell} :
    s.cell? p = some c → c.isTuple = false → (∀ v ∈ d.parts, v ∈ c.parts ∨ v ∈ added) →
    EditedAt s p added (s.write p d)
  | give {c : Cell} {name : Text} {v : Value} :
    s.cell? p = some c → c.isTuple = false → v ∈ added → EditedAt s p added (s.give p name v)

theorem mem_of_replaceAttribute {names : List Text} {values replaced : List Value} {name : Text}
    (done : replaceAttribute names values name new = .ok replaced) :
    ∀ u ∈ replaced, u ∈ values ∨ u = new := by
  unfold replaceAttribute at done
  split at done
  · obtain rfl := Except.ok.inj done
    exact fun u member => List.mem_or_eq_of_mem_set member
  · cases done

/-- Replacing an attribute brings nothing into a cell but the new value. -/
theorem mem_of_replaced {α : Type} {attributes : α → List Value}
    {ofAttributes? : List Value → Option α} {names : List Text} {replaced : List Value}
    {name : Text} {a : α}
    (inverse : ∀ {values b}, ofAttributes? values = some b → attributes b = values)
    (done : replaceAttribute names (attributes a) name new = .ok replaced) :
    ∀ u ∈ attributes ((ofAttributes? replaced).getD a), u ∈ attributes a ∨ u ∈ [new] := by
  intro u part
  rw [List.mem_singleton]
  cases made : ofAttributes? replaced with
  | none =>
    rw [made] at part
    exact .inl part
  | some b =>
    rw [made, Option.getD_some, inverse made] at part
    exact mem_of_replaceAttribute done u part

theorem assignAttribute_edited {name : Text} (done : s.assignAttribute v name new = .ok t) :
    ∃ p, v = .ref p ∧ s.EditedAt p [new] t := by
  unfold assignAttribute at done
  split at done
  · cases done
  · next p =>
    refine ⟨p, rfl, ?_⟩
    split at done
    · next c cell =>
      split at done
      · cases done
      · next model =>
        have plain : c.isTuple = false := by
          refine isTuple_of_attributes? ?_
          simpa [Option.isNone_iff_eq_none, ← Option.isSome_iff_ne_none] using model
        split at done
        · obtain rfl := Except.ok.inj done
          exact .give cell plain (List.mem_singleton_self new)
        · split at done
          · obtain ⟨attributes, replaced, done⟩ := Except.exists_ok_of_bind done
            obtain rfl := Except.ok.inj done
            exact .write cell plain
              (mem_of_replaced FieldCell.attributes_of_ofAttributes? replaced)
          · obtain ⟨attributes, replaced, done⟩ := Except.exists_ok_of_bind done
            obtain rfl := Except.ok.inj done
            exact .write cell plain
              (mem_of_replaced ResourceCell.attributes_of_ofAttributes? replaced)
          · split at done
            · obtain rfl := Except.ok.inj done
              exact .write cell plain fun u part => .inr part
            · cases done
    · cases done

theorem mem_insert {e : Value × Value} :
    {entries : List (Value × Value)} → e ∈ s.insert entries key new →
      e ∈ entries ∨ e.2 = new ∧ (e.1 = key ∨ ∃ other ∈ entries, e.1 = other.1)
  | [], member => by
    rw [insert, List.mem_singleton] at member
    subst member
    exact .inr ⟨rfl, .inl rfl⟩
  | (k, u) :: rest, member => by
    rw [insert] at member
    split at member
    · rcases List.mem_cons.mp member with rfl | member
      · exact .inr ⟨rfl, .inr ⟨(k, u), List.mem_cons_self, rfl⟩⟩
      · exact .inl (List.mem_cons_of_mem _ member)
    · rcases List.mem_cons.mp member with rfl | member
      · exact .inl List.mem_cons_self
      · rcases mem_insert member with before | ⟨value, same | ⟨other, before, same⟩⟩
        · exact .inl (List.mem_cons_of_mem _ before)
        · exact .inr ⟨value, .inl same⟩
        · exact .inr ⟨value, .inr ⟨other, List.mem_cons_of_mem _ before, same⟩⟩

theorem assignPart_edited (done : s.assignPart v key new = .ok t) :
    ∃ p, v = .ref p ∧ s.EditedAt p [new, key] t := by
  unfold assignPart at done
  split at done
  · cases done
  · next p =>
    refine ⟨p, rfl, ?_⟩
    split at done
    · next items cell =>
      obtain ⟨n, -, done⟩ := Except.exists_ok_of_bind done
      obtain rfl := Except.ok.inj done
      refine .write cell rfl fun u part => ?_
      rcases List.mem_or_eq_of_mem_set part with before | rfl
      · exact .inl before
      · exact .inr List.mem_cons_self
    · next entries cell =>
      split at done
      · obtain rfl := Except.ok.inj done
        refine .write cell rfl fun u part => ?_
        obtain ⟨e, member, part⟩ := List.mem_flatMap.mp part
        have mem_parts (other) (before : other ∈ entries) :
            ∀ u ∈ [other.1, other.2], u ∈ (Cell.map entries).parts :=
          fun u part => List.mem_flatMap.mpr ⟨other, before, part⟩
        rcases mem_insert member with before | ⟨value, same⟩
        · exact .inl (mem_parts e before u part)
        · rcases List.mem_cons.mp part with rfl | part
          · rcases same with same | ⟨other, before, same⟩
            · exact .inr (by simp [same])
            · exact .inl (same ▸ mem_parts other before other.1 List.mem_cons_self)
          · rw [List.mem_singleton.mp part, value]
            exact .inr List.mem_cons_self
      · cases done
    · cases done

/-- Assigning changes the place in front of the last step of the way. -/
theorem assign_edited (done : s.assign v way new = .ok t) :
    ∃ p last, way.getLast? = some last ∧ s.reach v way.dropLast = .ok (.ref p) ∧
      s.EditedAt p [new, last.key] t := by
  obtain ⟨⟨target, last⟩, ready, done⟩ := Except.exists_ok_of_bind done
  unfold beforeLast at ready
  split at ready
  · cases ready
  · next final found =>
    obtain ⟨u, reached, ready⟩ := Except.exists_ok_of_bind ready
    obtain ⟨rfl, rfl⟩ := Prod.mk.inj (Except.ok.inj ready)
    cases final with
    | named name =>
      obtain ⟨p, rfl, edited⟩ := assignAttribute_edited done
      refine ⟨p, _, found, reached, ?_⟩
      cases edited with
      | write cell plain inside =>
        refine .write cell plain fun u part => ?_
        exact (inside u part).imp_right fun same =>
          List.mem_cons.mpr (.inl (List.mem_singleton.mp same))
      | give cell plain same =>
        exact .give cell plain (List.mem_cons.mpr (.inl (List.mem_singleton.mp same)))
    | item key =>
      obtain ⟨p, rfl, edited⟩ := assignPart_edited done
      exact ⟨p, _, found, reached, edited⟩

/-- Appending changes the place at the end of the way. -/
theorem append_edited (done : s.append v way new = .ok t) :
    ∃ p, s.reach v way = .ok (.ref p) ∧ s.EditedAt p [new] t := by
  obtain ⟨⟨p, items⟩, found, done⟩ := Except.exists_ok_of_bind done
  obtain ⟨target, reached, found⟩ := Except.exists_ok_of_bind found
  cases target with
  | scalar x => cases found
  | ref q =>
    dsimp only at found
    split at found
    · next listed cell =>
      obtain ⟨rfl, rfl⟩ := Prod.mk.inj (Except.ok.inj found)
      obtain rfl := Except.ok.inj done
      refine ⟨q, reached, .write cell rfl fun u part => ?_⟩
      exact List.mem_append.mp part
    · cases found

/-- Deleting changes the place in front of the last step of the way. -/
theorem delete_edited (done : s.delete v way = .ok t) :
    ∃ p, s.reach v way.dropLast = .ok (.ref p) ∧ s.EditedAt p [] t := by
  obtain ⟨⟨target, last⟩, ready, done⟩ := Except.exists_ok_of_bind done
  unfold beforeLast at ready
  split at ready
  · cases ready
  · obtain ⟨u, reached, ready⟩ := Except.exists_ok_of_bind ready
    obtain ⟨rfl, rfl⟩ := Prod.mk.inj (Except.ok.inj ready)
    cases u with
    | scalar x => cases done
    | ref p =>
      refine ⟨p, reached, ?_⟩
      dsimp only at done
      split at done
      · next items cell =>
        obtain ⟨n, -, done⟩ := Except.exists_ok_of_bind done
        obtain rfl := Except.ok.inj done
        exact .write cell rfl fun u part => .inl (List.mem_of_mem_eraseIdx part)
      · next entries cell =>
        split at done
        · cases done
        · split at done
          · cases done
          · obtain rfl := Except.ok.inj done
            refine .write cell rfl fun u part => .inl ?_
            obtain ⟨e, member, part⟩ := List.mem_flatMap.mp part
            exact List.mem_flatMap.mpr ⟨e, (List.mem_filter.mp member).1, part⟩
      · cases done

theorem EditedAt.size_eq {p : Place} {added : List Value} (edited : s.EditedAt p added t) :
    t.size = s.size := by
  cases edited with
  | write => exact s.size_write p _
  | give => rfl

/-- A change that adds what is held keeps a store closed. -/
theorem Closed.editedAt (closed : s.Closed) {p : Place} {added : List Value}
    (edited : s.EditedAt p added t) (held : ∀ v ∈ added, s.Holds v) : t.Closed := by
  cases edited with
  | write cell plain inside =>
    refine closed.write p fun v part => ?_
    rcases inside v part with before | new
    · exact closed.holds_part cell v before
    · exact held v new
  | give cell plain new => exact closed.give _ (lt_size_of_cell? cell) (held _ new)

end Store

/-! ## Steps that change something -/

/-- The values that a step is given. -/
def SessionStep.values : SessionStep → List Value
  | .bind _ v | .schema _ v | .resource _ v | .property _ v _ => [v]
  | .assign _ way v | .append _ way v => v :: way.map WayStep.key
  | .delete _ way | .look _ way => way.map WayStep.key
  | _ => []

/-- The step changes something behind the variable. -/
def SessionStep.Edits (name : Text) : SessionStep → Prop
  | .assign other _ _ | .append other _ _ | .delete other _ => other = name
  | _ => False

/-- A step that changes something behind a variable changes one place to which the variable leads,
or it fails and changes nothing. -/
theorem Session.run_of_edits {σ : Session} {name : Text} {step : SessionStep}
    (edits : step.Edits name) :
    (σ.run step).1 = σ ∨
      ∃ target way p added t, σ.boundTo name = .ok target ∧
        σ.store.reach target way = .ok (.ref p) ∧ σ.store.EditedAt p added t ∧
        (∀ v ∈ added, v ∈ step.values) ∧ (σ.run step).1 = σ.withStore t := by
  have changed {r : Except Fault Store} :
      (σ.change r).1 = σ ∨ ∃ t, r = .ok t ∧ (σ.change r).1 = σ.withStore t := by
    cases r with
    | error fault => exact .inl rfl
    | ok t => exact .inr ⟨t, rfl, rfl⟩
  cases step with
  | assign other way v =>
    obtain rfl : other = name := edits
    rcases changed with same | ⟨t, done, goes⟩
    · exact .inl same
    · obtain ⟨target, bound, done⟩ := Except.exists_ok_of_bind done
      obtain ⟨p, last, final, reached, edited⟩ := Store.assign_edited done
      refine .inr ⟨target, _, p, _, t, bound, reached, edited, fun w added => ?_, goes⟩
      rcases List.mem_cons.mp added with rfl | added
      · exact List.mem_cons_self
      · rw [List.mem_singleton.mp added]
        exact List.mem_cons_of_mem _ (List.mem_map_of_mem (List.mem_of_getLast? final))
  | append other way v =>
    obtain rfl : other = name := edits
    rcases changed with same | ⟨t, done, goes⟩
    · exact .inl same
    · obtain ⟨target, bound, done⟩ := Except.exists_ok_of_bind done
      obtain ⟨p, reached, edited⟩ := Store.append_edited done
      refine .inr ⟨target, _, p, _, t, bound, reached, edited, fun w added => ?_, goes⟩
      rw [List.mem_singleton.mp added]
      exact List.mem_cons_self
  | delete other way =>
    obtain rfl : other = name := edits
    rcases changed with same | ⟨t, done, goes⟩
    · exact .inl same
    · obtain ⟨target, bound, done⟩ := Except.exists_ok_of_bind done
      obtain ⟨p, reached, edited⟩ := Store.delete_edited done
      exact .inr ⟨target, _, p, _, t, bound, reached, edited, nofun, goes⟩
  | _ => cases edits

end SwaggerDoc
