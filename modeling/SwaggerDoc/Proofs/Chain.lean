import Mathlib.Data.List.Nodup
import Mathlib.Data.List.Perm.Subperm
import Mathlib.Logic.Relation

/-!
Ways that come round.

A way with more steps than there are elements to step from comes to one of them twice.
-/

namespace SwaggerDoc

variable {α : Type} {R : α → α → Prop}

/-- A number of steps can be made from an element. -/
def Climbs (R : α → α → Prop) : Nat → α → Prop
  | 0, _ => True
  | n + 1, a => ∃ b, R a b ∧ Climbs R n b

open Relation in
/-- The elements from which steps are made are few, so a long way comes round. `seen` are the
elements passed on the way here. -/
theorem Climbs.comes_round {n : Nat} {a : α} {few seen : List α} (steps : ∀ a b, R a b → a ∈ few)
    (climbs : Climbs R n a) (nodup : seen.Nodup) (inside : seen ⊆ few)
    (led : ∀ b ∈ seen, TransGen R b a) (long : few.length < n + seen.length) :
    ∃ b, ReflTransGen R a b ∧ TransGen R b b := by
  induction n generalizing a seen with
  | zero =>
    have short := (nodup.subperm inside).length_le
    omega
  | succ n ih =>
    obtain ⟨b, step, later⟩ := climbs
    by_cases again : a ∈ seen
    · exact ⟨a, .refl, led a again⟩
    · have passed : ∀ c ∈ a :: seen, TransGen R c b :=
        List.forall_mem_cons.mpr ⟨.single step, fun c member => (led c member).tail step⟩
      obtain ⟨c, way, round⟩ := ih later (List.nodup_cons.mpr ⟨again, nodup⟩)
        (List.cons_subset.mpr ⟨steps a b step, inside⟩) passed (by rw [List.length_cons]; omega)
      exact ⟨c, .head step way, round⟩

/-- A way with more steps than there are elements to step from leads to an element that it comes
back to. -/
theorem Climbs.exists_cycle {n : Nat} {a : α} {few : List α} (climbs : Climbs R n a)
    (steps : ∀ a b, R a b → a ∈ few) (long : few.length < n) :
    ∃ b, Relation.ReflTransGen R a b ∧ Relation.TransGen R b b :=
  climbs.comes_round steps List.nodup_nil (List.nil_subset few) (List.forall_mem_nil _) long

end SwaggerDoc
