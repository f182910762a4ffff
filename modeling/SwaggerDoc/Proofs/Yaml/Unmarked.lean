import SwaggerDoc.Proofs.Nesting
import SwaggerDoc.Proofs.Store.Unshared
import SwaggerDoc.Proofs.Yaml.Drawable
import SwaggerDoc.Proofs.Yaml.Layout
import SwaggerDoc.Render.Document

/-!
Documents without anchors and aliases.

An alias is written for what was met before, and an anchor where an alias refers to. A tree meets
nothing twice, so its drawing refers back to nothing (`Drawing.references_of_isTree`). What refers
back to nothing is written as if no node in it had a place (`Drawing.document_unplaced`), and a node
without a place has no anchor.
-/

namespace SwaggerDoc

open Store

namespace Yaml

namespace Drawing

/-! ## What is met once -/

section Drawn

variable {step : DrawStep} {met met' : List Place}

theorem references_of_ofScalar {x : Scalar} {d : Drawing} (drawn : ofScalar x = .ok d) :
    d.references = [] := by
  cases x with
  | int i =>
    obtain ⟨t, -, made⟩ := Except.exists_ok_of_bind drawn
    cases made
    rfl
  | fieldType t => cases drawn
  | method m => cases drawn
  | _ =>
    cases drawn
    rfl

theorem ofScalar_of_drawWithin {s : Store} {depth : Nat} {x : Scalar} {d : Drawing}
    (drawn : drawWithin s depth met (.scalar x) = .ok (d, met')) :
    ofScalar x = .ok d ∧ met' = met := by
  cases depth <;>
  · obtain ⟨d', made, drawn⟩ := Except.exists_ok_of_bind drawn
    obtain ⟨rfl, rfl⟩ := Prod.mk.inj (Except.ok.inj drawn)
    exact ⟨made, rfl⟩

/-- Drawing entries is drawing keys and values in turn. -/
theorem drawAll_of_drawEntries {entries : List (Value × Value)} {ds : List (Drawing × Drawing)}
    (done : drawEntries step met entries = .ok (ds, met')) :
    ∃ parts, drawAll step met (Cell.map entries).parts = .ok (parts, met') ∧
      referencesAll parts = referencesEntries ds := by
  induction entries generalizing met ds with
  | nil =>
    cases done
    exact ⟨[], rfl, rfl⟩
  | cons e rest ih =>
    obtain ⟨⟨k, met₁⟩, drawnKey, done⟩ := Except.exists_ok_of_bind done
    obtain ⟨⟨v, met₂⟩, drawnValue, done⟩ := Except.exists_ok_of_bind done
    obtain ⟨⟨later, met₃⟩, drawnLater, done⟩ := Except.exists_ok_of_bind done
    cases done
    obtain ⟨parts, drawn, same⟩ := ih drawnLater
    refine ⟨k :: v :: parts, ?_, ?_⟩
    · change drawAll step met (e.1 :: e.2 :: (Cell.map rest).parts) = _
      simp only [drawAll, drawnKey, drawnValue, drawn, bind, Except.bind, pure, Except.pure]
    · rw [referencesAll, referencesAll, same, referencesEntries, List.append_assoc]

/-- Drawing a container that was not met before is drawing its parts, unless it is empty and has no
identity. -/
theorem drawAll_of_drawWithin {s : Store} {depth : Nat} {p : Place} {c : Cell} {d : Drawing}
    (cell : s.cell? p = some c) (kind : c.isStructure = true) (new : p ∉ met)
    (drawn : drawWithin s depth met (.ref p) = .ok (d, met')) :
    d = .sequence none [] ∧ met' = met ∨
      ∃ depth' parts, drawAll (drawWithin s depth') (p :: met) c.parts = .ok (parts, met') ∧
        d.references = referencesAll parts := by
  cases depth with
  | zero => cases drawn
  | succ depth =>
    have other : ¬ met.contains p = true := by simpa using new
    rw [drawWithin, if_neg other] at drawn
    simp only [cell] at drawn
    cases c with
    | list items =>
      obtain ⟨⟨parts, met₁⟩, drawnAll, drawn⟩ := Except.exists_ok_of_bind drawn
      cases drawn
      exact .inr ⟨depth, parts, drawnAll, rfl⟩
    | tuple items =>
      cases items with
      | nil =>
        cases drawn
        exact .inl ⟨rfl, rfl⟩
      | cons first rest =>
        obtain ⟨⟨parts, met₁⟩, drawnAll, drawn⟩ := Except.exists_ok_of_bind drawn
        cases drawn
        exact .inr ⟨depth, parts, drawnAll, rfl⟩
    | map entries =>
      obtain ⟨⟨ds, met₁⟩, drawnEntries, drawn⟩ := Except.exists_ok_of_bind drawn
      cases drawn
      obtain ⟨parts, drawnAll, same⟩ := drawAll_of_drawEntries drawnEntries
      exact .inr ⟨depth, parts, drawnAll, same.symm⟩
    | _ => cases kind

end Drawn

/-- As long as none of the places was met before, the values are drawn without references, and
nothing but the places is met. -/
def DrawnOnce (s : Store) (values : List Value) (places : List Place) : Prop :=
  ∀ depth met met' ds, (∀ p ∈ places, p ∉ met) →
    drawAll (drawWithin s depth) met values = .ok (ds, met') →
    referencesAll ds = [] ∧ ∀ p ∈ met', p ∈ places ∨ p ∈ met

namespace DrawnOnce

variable {s : Store}

theorem nil (s : Store) : DrawnOnce s [] [] := by
  intro depth met met' ds fresh done
  cases done
  exact ⟨rfl, fun p member => .inr member⟩

theorem scalar (s : Store) (x : Scalar) : DrawnOnce s [.scalar x] [] := by
  intro depth met met' ds fresh done
  obtain ⟨⟨d, met₁⟩, drawn, done⟩ := Except.exists_ok_of_bind done
  cases done
  obtain ⟨made, rfl⟩ := ofScalar_of_drawWithin drawn
  exact ⟨by rw [referencesAll, references_of_ofScalar made]; rfl, fun p member => .inr member⟩

theorem container {p : Place} {c : Cell} {inner : List Place} (cell : s.cell? p = some c)
    (kind : c.isStructure = true) (outside : p ∉ inner) (parts : DrawnOnce s c.parts inner) :
    DrawnOnce s [.ref p] (p :: inner) := by
  intro depth met met' ds fresh done
  obtain ⟨⟨d, met₁⟩, drawn, done⟩ := Except.exists_ok_of_bind done
  cases done
  obtain ⟨new, freshInner⟩ := List.forall_mem_cons.mp fresh
  rcases drawAll_of_drawWithin cell kind new drawn with ⟨rfl, rfl⟩ | ⟨depth', ds, drawnAll, same⟩
  · exact ⟨rfl, fun q member => .inr member⟩
  · have fresh' : ∀ q ∈ inner, q ∉ p :: met := fun q member =>
      List.not_mem_cons_of_ne_of_not_mem (ne_of_mem_of_not_mem member outside)
        (freshInner q member)
    obtain ⟨free, more⟩ := parts _ _ _ _ fresh' drawnAll
    refine ⟨by rw [referencesAll, same, free]; rfl, fun q member => ?_⟩
    rcases more q member with within | before
    · exact .inl (List.mem_cons_of_mem p within)
    · rcases List.mem_cons.mp before with rfl | before
      · exact .inl List.mem_cons_self
      · exact .inr before

/-- The first of many is drawn before the others and meets none of their places. -/
theorem cons {v : Value} {rest : List Value} {first others : List Place}
    (here : DrawnOnce s [v] first) (behind : DrawnOnce s rest others)
    (apart : ∀ p ∈ first, ∀ q ∈ others, p ≠ q) : DrawnOnce s (v :: rest) (first ++ others) := by
  intro depth met met' ds fresh done
  obtain ⟨⟨d, met₁⟩, drawn, done⟩ := Except.exists_ok_of_bind done
  obtain ⟨⟨later, met₂⟩, drawnLater, done⟩ := Except.exists_ok_of_bind done
  cases done
  obtain ⟨freshFirst, freshOthers⟩ := List.forall_mem_append.mp fresh
  have alone : drawAll (drawWithin s depth) met [v] = .ok ([d], met₁) := by
    simp only [drawAll, drawn, bind, Except.bind, pure, Except.pure]
  obtain ⟨free, more⟩ := here _ _ _ _ freshFirst alone
  have fresh' : ∀ q ∈ others, q ∉ met₁ := fun q member before =>
    (more q before).elim (fun within => apart q within q member rfl) (freshOthers q member)
  obtain ⟨freeLater, moreLater⟩ := behind _ _ _ _ fresh' drawnLater
  rw [referencesAll, referencesAll, List.append_nil] at free
  refine ⟨by rw [referencesAll, free, freeLater]; rfl, fun q member => ?_⟩
  rcases moreLater q member with behind | before
  · exact .inl (List.mem_append_right _ behind)
  · exact (more q before).imp_left (List.mem_append_left _)

/-- What branches out through places that differ is drawn without references. -/
theorem of_branches {values : List Value} {places : List Place}
    (branches : s.Branches Cell.isStructure values places) (nodup : places.Nodup) :
    DrawnOnce s values places := by
  induction branches with
  | nil => exact nil s
  | scalar _ _ ih => exact cons (scalar s _) (ih nodup) (List.forall_mem_nil _)
  | @container p c rest inner others cell kind _ _ ih ih' =>
    obtain ⟨outside, nodup'⟩ := List.nodup_cons.mp nodup
    obtain ⟨nodupInner, nodupOthers, apart⟩ := List.nodup_append.mp nodup'
    have here : DrawnOnce s [.ref p] (p :: inner) :=
      container cell kind (fun within => outside (List.mem_append_left _ within)) (ih nodupInner)
    refine cons here (ih' nodupOthers) (List.forall_mem_cons.mpr ⟨fun q behind same => ?_, apart⟩)
    exact outside (same ▸ List.mem_append_right _ behind)

end DrawnOnce

/-- Nothing in the drawing of a tree is a reference. -/
theorem references_of_isTree {s : Store} {v : Value} {d : Drawing}
    (tree : s.IsTree Cell.isStructure v) (drawn : draw s v = .ok d) : d.references = [] := by
  obtain ⟨places, branches, nodup⟩ := tree
  obtain ⟨⟨d', met⟩, drawnWithin, made⟩ := Except.exists_ok_of_bind drawn
  obtain rfl := Except.ok.inj made
  have alone : drawAll (drawWithin s (s.size + 1)) [] [v] = .ok ([d'], met) := by
    simp only [drawAll, drawnWithin, bind, Except.bind, pure, Except.pure]
  have free := (DrawnOnce.of_branches branches nodup _ _ _ _ (fun p _ => List.not_mem_nil) alone).1
  simpa [referencesAll] using free

/-! ## What is written without anchors -/

mutual

/-- A drawing without the places that a later node could refer back to. -/
def unplaced : Drawing → Drawing
  | .scalar _ tag t lines => .scalar none tag t lines
  | .sequence _ items => .sequence none (unplacedAll items)
  | .mapping _ tag entries => .mapping none tag (unplacedEntries entries)
  | .again place => .again place

/-- Drawings without places. -/
def unplacedAll : List Drawing → List Drawing
  | [] => []
  | d :: rest => d.unplaced :: unplacedAll rest

/-- Entries without places. -/
def unplacedEntries : List (Drawing × Drawing) → List (Drawing × Drawing)
  | [] => []
  | (k, v) :: rest => (k.unplaced, v.unplaced) :: unplacedEntries rest

end

@[simp] theorem isEmpty_unplacedAll (items : List Drawing) :
    (unplacedAll items).isEmpty = items.isEmpty := by
  cases items <;> rfl

@[simp] theorem isEmpty_unplacedEntries (entries : List (Drawing × Drawing)) :
    (unplacedEntries entries).isEmpty = entries.isEmpty := by
  cases entries <;> rfl

mutual

theorem references_unplaced : (d : Drawing) → d.unplaced.references = d.references
  | .scalar .. => rfl
  | .sequence _ items => referencesAll_unplacedAll items
  | .mapping _ _ entries => referencesEntries_unplacedEntries entries
  | .again _ => rfl

theorem referencesAll_unplacedAll :
    (items : List Drawing) → referencesAll (unplacedAll items) = referencesAll items
  | [] => rfl
  | d :: rest => by
    rw [unplacedAll, referencesAll, references_unplaced d, referencesAll_unplacedAll rest,
      referencesAll]

theorem referencesEntries_unplacedEntries : (entries : List (Drawing × Drawing)) →
    referencesEntries (unplacedEntries entries) = referencesEntries entries
  | [] => rfl
  | (k, v) :: rest => by
    rw [unplacedEntries, referencesEntries, references_unplaced k, references_unplaced v,
      referencesEntries_unplacedEntries rest, referencesEntries]

end

theorem isSimpleKey_unplaced (d : Drawing) : d.unplaced.isSimpleKey [] = d.isSimpleKey [] := by
  cases d <;> simp [unplaced, isSimpleKey, name?_nil]

mutual

/-- Without anchors the places in a drawing do not matter. -/
theorem write_unplaced (column : Option Nat) (position : Position) : (d : Drawing) → (p : Page) →
    d.unplaced.write [] column position p = d.write [] column position p
  | .scalar place tag t lines, p => by
    simp only [unplaced, Drawing.write, name?_nil]
  | .sequence place items, p => by
    simp only [unplaced, Drawing.write, name?_nil, isEmpty_unplacedAll,
      writeItems_unplacedAll _ items]
  | .mapping place tag entries, p => by
    simp only [unplaced, Drawing.write, name?_nil, isEmpty_unplacedEntries,
      writeEntries_unplacedEntries _ entries]
  | .again place, p => rfl

theorem writeItems_unplacedAll (column : Nat) : (items : List Drawing) → (p : Page) →
    Drawing.writeItems [] column (unplacedAll items) p = Drawing.writeItems [] column items p
  | [], p => rfl
  | d :: rest, p => by
    rw [unplacedAll, Drawing.writeItems, Drawing.writeItems, write_unplaced _ _ d,
      writeItems_unplacedAll column rest]

theorem writeEntries_unplacedEntries (column : Nat) :
    (entries : List (Drawing × Drawing)) → (p : Page) →
    Drawing.writeEntries [] column (unplacedEntries entries) p =
      Drawing.writeEntries [] column entries p
  | [], p => rfl
  | (k, v) :: rest, p => by
    simp only [unplacedEntries, Drawing.writeEntries, isSimpleKey_unplaced, write_unplaced _ _ k,
      write_unplaced _ _ v, writeEntries_unplacedEntries column rest]

end

/-- What refers back to nothing is written as if it had no places. -/
theorem document_unplaced {d : Drawing} (free : d.references = []) :
    d.unplaced.document = d.document := by
  simp only [document, references_unplaced, free, List.foldl_nil, write_unplaced]

/-- Data can be drawn unless an integer among them has more than 4300 digits. -/
theorem exists_draw_or_long {s : Store} {v : Value} (data : (s.unfold v).IsData) :
    (∃ d, draw s v = .ok d) ∨
      ∃ i, Tree.scalar (.int i) ∈ (s.unfold v).parts ∧ tenTo 4300 ≤ i.natAbs := by
  by_cases small : ∀ i, Tree.scalar (.int i) ∈ (s.unfold v).parts → i.natAbs < tenTo 4300
  · exact .inl (exists_draw_iff.mpr fun part member =>
      ⟨data part member, fun i same => small i (same ▸ member)⟩)
  · obtain ⟨i, long⟩ := not_forall.mp small
    obtain ⟨member, long⟩ := Classical.not_imp.mp long
    exact .inr ⟨i, member, Nat.le_of_not_lt long⟩

end Drawing

end Yaml

open Yaml

/-- Nothing in the value is shared with another part of it, and so nothing is marked as shared where
the value is written. -/
structure Store.SharesNothing (s : Store) (v : Value) : Prop where
  /-- Each place is reached on one way. -/
  way_unique : ∀ {way way' : List Nat} {p : Place}, s.along? way v = some (.ref p) →
    s.along? way' v = some (.ref p) → way = way'
  /-- The YAML text is that of a drawing that refers back to nothing and has no places to which
  anything could refer back. -/
  unmarked : ∀ t, s.render v .yaml = .ok t →
    ∃ d, Drawing.draw s v = .ok d ∧ d.references = [] ∧ t = d.unplaced.document
  /-- There is a text if nothing is nested too deep, unless an integer has more than 4300
  digits. -/
  written : (s.unfold v).depth ≤ sureDepth → (∃ t, s.render v .yaml = .ok t) ∨
    ∃ i, Tree.scalar (.int i) ∈ (s.unfold v).parts ∧ tenTo 4300 ≤ i.natAbs

theorem Store.IsTree.sharesNothing {s : Store} {v : Value} (tree : s.IsTree Cell.isStructure v) :
    s.SharesNothing v where
  way_unique := tree.way_unique
  unmarked t rendered := by
    obtain ⟨d, drawn, written⟩ := Except.exists_ok_of_bind rendered
    have free := Drawing.references_of_isTree tree drawn
    exact ⟨d, drawn, free, by rw [Drawing.document_unplaced free, ← Except.ok.inj written]⟩
  written _ :=
    (Drawing.exists_draw_or_long tree.isData_unfold).imp_left fun ⟨d, drawn⟩ =>
      ⟨d.document, by rw [render, drawn]; rfl⟩

end SwaggerDoc
