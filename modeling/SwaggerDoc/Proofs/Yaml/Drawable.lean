import SwaggerDoc.Proofs.Outcome
import SwaggerDoc.Proofs.Store.Parts
import SwaggerDoc.Yaml.Drawing

/-!
What can be drawn.

A value can be drawn if and only if all that it shows are data without an integer of more than 4300
digits (`Drawing.exists_draw_iff`). What contains itself can be drawn too, because what was met
before is only referred to. In one direction every container around a part was met before the part
is drawn; in the other, the places that were met in the end are closed under the parts of what lies
there (`Settled`), so that whatever is shown was drawn somewhere.
-/

namespace SwaggerDoc

/-- A tree that has a drawing at its root: data, and no integer of more than 4300 digits. -/
def Tree.IsDrawn (t : Tree) : Prop :=
  t.isDatum = true ∧ ∀ i, t = .scalar (.int i) → i.natAbs < tenTo 4300

namespace Yaml.Drawing

variable {s : Store} {step : DrawStep} {met outer : List Place}

theorem exists_ofScalar_iff {x : Scalar} :
    (∃ d, ofScalar x = .ok d) ↔ (Tree.scalar x).IsDrawn := by
  cases x with
  | int i =>
    simp only [ofScalar, integerText?, Tree.IsDrawn, Tree.isDatum, Scalar.isPlain, true_and]
    by_cases small : i.natAbs < tenTo 4300
    · rw [if_pos small]
      exact ⟨fun _ j same => Scalar.int.inj (Tree.scalar.inj same) ▸ small, fun _ => ⟨_, rfl⟩⟩
    · rw [if_neg small]
      exact ⟨fun ⟨_, failed⟩ => (nomatch failed), fun shows => absurd (shows i rfl) small⟩
  | fieldType t => exact ⟨fun ⟨_, failed⟩ => (nomatch failed), fun shows => (nomatch shows.1)⟩
  | method m => exact ⟨fun ⟨_, failed⟩ => (nomatch failed), fun shows => (nomatch shows.1)⟩
  | _ => exact ⟨fun _ => ⟨rfl, nofun⟩, fun _ => ⟨_, rfl⟩⟩

/-! ## What is shown can be drawn -/

/-- The step draws the value whatever was met before, as long as the given places were. -/
def Draws (step : DrawStep) (outer : List Place) (v : Value) : Prop :=
  ∀ met, outer ⊆ met → ∃ d met', step met v = .ok (d, met') ∧ met ⊆ met'

theorem exists_drawAll {items : List Value} (draws : ∀ v ∈ items, Draws step outer v)
    (around : outer ⊆ met) : ∃ ds met', drawAll step met items = .ok (ds, met') ∧ met ⊆ met' := by
  induction items generalizing met with
  | nil => exact ⟨[], met, rfl, List.Subset.refl met⟩
  | cons v rest ih =>
    obtain ⟨first, others⟩ := List.forall_mem_cons.mp draws
    obtain ⟨d, met₁, drawn, more⟩ := first met around
    obtain ⟨ds, met₂, drawnAll, more'⟩ := ih others (List.Subset.trans around more)
    exact ⟨d :: ds, met₂, by simp [drawAll, drawn, drawnAll, bind, Except.bind, pure, Except.pure],
      List.Subset.trans more more'⟩

theorem exists_drawEntries {entries : List (Value × Value)}
    (draws : ∀ e ∈ entries, Draws step outer e.1 ∧ Draws step outer e.2) (around : outer ⊆ met) :
    ∃ ds met', drawEntries step met entries = .ok (ds, met') ∧ met ⊆ met' := by
  induction entries generalizing met with
  | nil => exact ⟨[], met, rfl, List.Subset.refl met⟩
  | cons e rest ih =>
    obtain ⟨⟨key, value⟩, others⟩ := List.forall_mem_cons.mp draws
    obtain ⟨k, met₁, drawnKey, more₁⟩ := key met around
    obtain ⟨v, met₂, drawnValue, more₂⟩ := value met₁ (List.Subset.trans around more₁)
    have further := List.Subset.trans more₁ more₂
    obtain ⟨ds, met₃, drawnAll, more₃⟩ := ih others (List.Subset.trans around further)
    refine ⟨(k, v) :: ds, met₃, ?_, List.Subset.trans further more₃⟩
    simp [drawEntries, drawnKey, drawnValue, drawnAll, bind, Except.bind, pure, Except.pure]

/-- A container is drawn if its parts are, once it counts as met. -/
theorem exists_ok_of_parts {α : Type} {r : Except Fault (α × List Place)} {p : Place}
    (make : α → Drawing) (drawn : ∃ a met', r = .ok (a, met') ∧ p :: met ⊆ met') :
    ∃ d met', (do
      let (a, met) ← r
      return (make a, met)) = Except.ok (ε := Fault) (d, met') ∧ met ⊆ met' := by
  obtain ⟨a, met', rfl, more⟩ := drawn
  exact ⟨make a, met', rfl, List.Subset.trans (List.subset_cons_self p met) more⟩

theorem draws_of_isDrawn {depth : Nat} (nodup : outer.Nodup) (filled : ∀ p ∈ outer, p < s.size)
    (enough : s.size < depth + outer.length) {v : Value}
    (shows : (s.unfoldWithin depth outer v).Everywhere Tree.IsDrawn) :
    Draws (drawWithin s depth) outer v := by
  induction depth generalizing outer v with
  | zero =>
    have bound := Store.length_le_size nodup filled
    omega
  | succ depth ih =>
    intro met around
    cases v with
    | scalar x =>
      obtain ⟨d, drawn⟩ := exists_ofScalar_iff.mpr (Tree.everywhere_scalar.mp shows)
      exact ⟨d, met, by rw [drawWithin, drawn]; rfl, List.Subset.refl met⟩
    | ref p =>
      rw [drawWithin]
      split
      · exact ⟨.again p, met, rfl, List.Subset.refl met⟩
      · next apart =>
        have fresh : p ∉ outer := fun member => apart (by simpa using around member)
        have index : outer.idxOf? p = none := by simpa using fresh
        rw [Store.unfoldWithin, index] at shows
        have around' : p :: outer ⊆ p :: met := List.cons_subset_cons p around
        have grown : met ⊆ p :: met := List.subset_cons_self p met
        cases cell : s.cell? p with
        | none =>
          rw [cell] at shows
          cases (Tree.everywhere_object.mp shows).1
        | some c =>
          have part {w : Value}
              (shows : (s.unfoldWithin depth (p :: outer) w).Everywhere Tree.IsDrawn) :
              Draws (drawWithin s depth) (p :: outer) w := by
            refine ih (List.nodup_cons.mpr ⟨fresh, nodup⟩)
              (List.forall_mem_cons.mpr ⟨Store.lt_size_of_cell? cell, filled⟩) ?_ shows
            rw [List.length_cons]
            omega
          rw [cell] at shows
          cases c with
          | list items =>
            have parts := List.forall_mem_map.mp (Tree.everywhere_list.mp shows).2
            exact exists_ok_of_parts (.sequence (some p))
              (exists_drawAll (fun v member => part (parts v member)) around')
          | tuple items =>
            have parts := List.forall_mem_map.mp (Tree.everywhere_tuple.mp shows).2
            cases items with
            | nil => exact ⟨.sequence none [], met, rfl, List.Subset.refl met⟩
            | cons first rest =>
              exact exists_ok_of_parts (.sequence (some p))
                (exists_drawAll (fun v member => part (parts v member)) around')
          | set items =>
            have parts := List.forall_mem_map.mp (Tree.everywhere_set.mp shows).2
            have null : Draws (drawWithin s depth) (p :: outer) .null := fun met _ =>
              ⟨.scalar none .null (text "null") false, met, by cases depth <;> rfl,
                List.Subset.refl met⟩
            refine exists_ok_of_parts (.mapping (some p) .set)
              (exists_drawEntries (List.forall_mem_map.mpr fun v member => ?_) around')
            exact ⟨part (parts v member), null⟩
          | map entries =>
            have parts := List.forall_mem_map.mp (Tree.everywhere_map.mp shows).2
            refine exists_ok_of_parts (.mapping (some p) .mapping)
              (exists_drawEntries (fun e member => ?_) around')
            exact ⟨part (parts e member).1, part (parts e member).2⟩
          | date d => exact ⟨_, p :: met, rfl, grown⟩
          | time t => exact ⟨_, p :: met, rfl, grown⟩
          | field f => cases (shows _ List.mem_cons_self).1
          | schema fields =>
            exfalso
            dsimp only at shows
            split at shows
            · cases (shows _ List.mem_cons_self).1
            · cases (shows _ List.mem_cons_self).1
          | resource r => cases (shows _ List.mem_cons_self).1
          | object => cases (shows _ List.mem_cons_self).1

/-! ## What is drawn is shown -/

/-- The value was drawn: it has a drawing at once, or its place was met. -/
def WasDrawn (s : Store) (met : List Place) : Value → Prop
  | .scalar x => (Tree.scalar x).IsDrawn
  | .ref p => p ∈ met ∨ s.cell? p = some (.tuple [])

theorem WasDrawn.mono {met' : List Place} {v : Value} (drawn : WasDrawn s met v)
    (more : met ⊆ met') : WasDrawn s met' v := by
  cases v with
  | scalar x => exact drawn
  | ref p => exact drawn.imp_left (more ·)

/-- What lies at the places that were met later is plain, and its parts were drawn. -/
def Settled (s : Store) (met met' : List Place) : Prop :=
  ∀ p ∈ met', p ∉ met →
    ∃ c, s.cell? p = some c ∧ c.isPlain = true ∧ ∀ w ∈ c.parts, WasDrawn s met' w

theorem Settled.refl (met : List Place) : Settled s met met := fun _ member apart =>
  absurd member apart

theorem Settled.trans {met' met'' : List Place} (first : Settled s met met')
    (later : Settled s met' met'') (more : met' ⊆ met'') : Settled s met met'' := by
  intro p member apart
  by_cases before : p ∈ met'
  · obtain ⟨c, cell, kind, parts⟩ := first p before apart
    exact ⟨c, cell, kind, fun w part => (parts w part).mono more⟩
  · exact later p member before

/-- Whatever a step draws was met afterwards, and what was met is settled. -/
def Settles (s : Store) (step : DrawStep) : Prop :=
  ∀ {met met' : List Place} {v : Value} {d : Drawing}, step met v = .ok (d, met') →
    met ⊆ met' ∧ WasDrawn s met' v ∧ Settled s met met'

theorem Settles.drawAll (settles : Settles s step) {items : List Value} {met' : List Place}
    {ds : List Drawing} (done : drawAll step met items = .ok (ds, met')) :
    met ⊆ met' ∧ (∀ v ∈ items, WasDrawn s met' v) ∧ Settled s met met' := by
  induction items generalizing met ds with
  | nil =>
    obtain ⟨-, rfl⟩ := Prod.mk.inj (Except.ok.inj done)
    exact ⟨List.Subset.refl _, List.forall_mem_nil _, .refl _⟩
  | cons v rest ih =>
    obtain ⟨⟨d, met₁⟩, drawn, done⟩ := Except.exists_ok_of_bind done
    obtain ⟨⟨ds', met₂⟩, drawnAll, done⟩ := Except.exists_ok_of_bind done
    obtain ⟨-, rfl⟩ := Prod.mk.inj (Except.ok.inj done)
    obtain ⟨more, first, settled⟩ := settles drawn
    obtain ⟨more', others, settled'⟩ := ih drawnAll
    exact ⟨List.Subset.trans more more', List.forall_mem_cons.mpr ⟨first.mono more', others⟩,
      settled.trans settled' more'⟩

theorem Settles.drawEntries (settles : Settles s step) {entries : List (Value × Value)}
    {met' : List Place} {ds : List (Drawing × Drawing)}
    (done : drawEntries step met entries = .ok (ds, met')) :
    met ⊆ met' ∧ (∀ e ∈ entries, WasDrawn s met' e.1 ∧ WasDrawn s met' e.2) ∧ Settled s met met' := by
  induction entries generalizing met ds with
  | nil =>
    obtain ⟨-, rfl⟩ := Prod.mk.inj (Except.ok.inj done)
    exact ⟨List.Subset.refl _, List.forall_mem_nil _, .refl _⟩
  | cons e rest ih =>
    obtain ⟨⟨k, met₁⟩, drawnKey, done⟩ := Except.exists_ok_of_bind done
    obtain ⟨⟨v, met₂⟩, drawnValue, done⟩ := Except.exists_ok_of_bind done
    obtain ⟨⟨ds', met₃⟩, drawnAll, done⟩ := Except.exists_ok_of_bind done
    obtain ⟨-, rfl⟩ := Prod.mk.inj (Except.ok.inj done)
    obtain ⟨more₁, key, settled₁⟩ := settles drawnKey
    obtain ⟨more₂, value, settled₂⟩ := settles drawnValue
    obtain ⟨more₃, others, settled₃⟩ := ih drawnAll
    have further := List.Subset.trans more₂ more₃
    refine ⟨List.Subset.trans more₁ further, List.forall_mem_cons.mpr ⟨⟨?_, ?_⟩, others⟩, ?_⟩
    · exact key.mono further
    · exact value.mono more₃
    · exact (settled₁.trans settled₂ more₂).trans settled₃ more₃

/-- A container is settled when its parts are. -/
theorem settled_of_parts {p : Place} {met' : List Place} {c : Cell} (cell : s.cell? p = some c)
    (kind : c.isPlain = true) (more : p :: met ⊆ met') (parts : ∀ w ∈ c.parts, WasDrawn s met' w)
    (settled : Settled s (p :: met) met') :
    met ⊆ met' ∧ WasDrawn s met' (.ref p) ∧ Settled s met met' := by
  refine ⟨List.Subset.trans (List.subset_cons_self p met) more, Or.inl (more List.mem_cons_self),
    fun q member apart => ?_⟩
  by_cases same : q = p
  · subst same
    exact ⟨c, cell, kind, parts⟩
  · exact settled q member (by simp [same, apart])

theorem settles_drawWithin (s : Store) (depth : Nat) : Settles s (drawWithin s depth) := by
  induction depth with
  | zero =>
    intro met met' v d done
    cases v with
    | ref p => cases done
    | scalar x =>
      obtain ⟨d', drawn, done⟩ := Except.exists_ok_of_bind done
      obtain ⟨-, rfl⟩ := Prod.mk.inj (Except.ok.inj done)
      exact ⟨List.Subset.refl _, exists_ofScalar_iff.mp ⟨d', drawn⟩, .refl _⟩
  | succ depth ih =>
    intro met met' v d done
    cases v with
    | scalar x =>
      obtain ⟨d', drawn, done⟩ := Except.exists_ok_of_bind done
      obtain ⟨-, rfl⟩ := Prod.mk.inj (Except.ok.inj done)
      exact ⟨List.Subset.refl _, exists_ofScalar_iff.mp ⟨d', drawn⟩, .refl _⟩
    | ref p =>
      rw [drawWithin] at done
      split at done
      · next again =>
        obtain ⟨-, rfl⟩ := Prod.mk.inj (Except.ok.inj done)
        exact ⟨List.Subset.refl _, Or.inl (by simpa using again), .refl _⟩
      · dsimp only at done
        split at done
        · next items cell =>
          obtain ⟨⟨ds, met₁⟩, drawn, done⟩ := Except.exists_ok_of_bind done
          obtain ⟨-, rfl⟩ := Prod.mk.inj (Except.ok.inj done)
          obtain ⟨more, parts, settled⟩ := ih.drawAll drawn
          exact settled_of_parts cell rfl more parts settled
        · next cell =>
          obtain ⟨-, rfl⟩ := Prod.mk.inj (Except.ok.inj done)
          exact ⟨List.Subset.refl _, .inr cell, .refl _⟩
        · next items _ cell =>
          obtain ⟨⟨ds, met₁⟩, drawn, done⟩ := Except.exists_ok_of_bind done
          obtain ⟨-, rfl⟩ := Prod.mk.inj (Except.ok.inj done)
          obtain ⟨more, parts, settled⟩ := ih.drawAll drawn
          exact settled_of_parts cell rfl more parts settled
        · next entries cell =>
          obtain ⟨⟨ds, met₁⟩, drawn, done⟩ := Except.exists_ok_of_bind done
          obtain ⟨-, rfl⟩ := Prod.mk.inj (Except.ok.inj done)
          obtain ⟨more, parts, settled⟩ := ih.drawEntries drawn
          refine settled_of_parts cell rfl more (fun w part => ?_) settled
          obtain ⟨e, member, same⟩ := List.mem_flatMap.mp part
          rcases List.mem_pair.mp same with rfl | rfl
          · exact (parts e member).1
          · exact (parts e member).2
        · next items cell =>
          obtain ⟨⟨ds, met₁⟩, drawn, done⟩ := Except.exists_ok_of_bind done
          obtain ⟨-, rfl⟩ := Prod.mk.inj (Except.ok.inj done)
          obtain ⟨more, parts, settled⟩ := ih.drawEntries drawn
          refine settled_of_parts cell rfl more (fun w part => ?_) settled
          exact (List.forall_mem_map.mp parts w part).1
        · next date cell =>
          obtain ⟨-, rfl⟩ := Prod.mk.inj (Except.ok.inj done)
          exact settled_of_parts cell rfl (List.Subset.refl _) (List.forall_mem_nil _) (.refl _)
        · next time cell =>
          obtain ⟨-, rfl⟩ := Prod.mk.inj (Except.ok.inj done)
          exact settled_of_parts cell rfl (List.Subset.refl _) (List.forall_mem_nil _) (.refl _)
        · cases done

/-- Whatever was drawn in the end is drawn everywhere it is shown. -/
theorem isDrawn_of_settled {met : List Place} (settled : Settled s [] met) {v : Value}
    (drawn : WasDrawn s met v) : (s.unfold v).Everywhere Tree.IsDrawn := by
  refine Store.everywhere_unfold _ (fun x drawn => drawn)
    (fun t datum other => ⟨datum, fun i same => absurd same (other _)⟩) (fun p drawn => ?_) drawn
  rcases drawn with member | none
  · exact settled p member List.not_mem_nil
  · exact ⟨.tuple [], none, rfl, List.forall_mem_nil _⟩

/-- What can be drawn is what shows nothing but data without long integers. -/
theorem exists_draw_iff {v : Value} :
    (∃ d, draw s v = .ok d) ↔ (s.unfold v).Everywhere Tree.IsDrawn := by
  constructor
  · rintro ⟨d, done⟩
    obtain ⟨⟨d', met⟩, drawn, -⟩ := Except.exists_ok_of_bind done
    obtain ⟨-, here, settled⟩ := settles_drawWithin s _ drawn
    exact isDrawn_of_settled settled here
  · intro shows
    obtain ⟨d, met, drawn, -⟩ :=
      draws_of_isDrawn .nil (List.forall_mem_nil _) (Nat.lt_succ_self _) shows [] (List.Subset.refl _)
    exact ⟨d, by rw [draw, drawn]; rfl⟩

end Yaml.Drawing

end SwaggerDoc
