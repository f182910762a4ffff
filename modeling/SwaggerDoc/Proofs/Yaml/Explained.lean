import SwaggerDoc.Yaml.Cursor

/-!
Results whose faults have causes.

Reading can always find that a text is not well formed, and that needs no explanation. Any other
fault has to have a cause, and a result has to have a property on which what follows can rely
(`Explained`). The same is said of steps that change a state, for which a property of the state holds
before and after (`Keeps`).
-/

namespace SwaggerDoc.Yaml

/-- A result has a property, and a fault has a cause. -/
def Explained {α : Type} (causes : Fault → Prop) (good : α → Prop) : Except Problem α → Prop
  | .ok a => good a
  | .error .malformed => True
  | .error (.fault f) => causes f

namespace Explained

variable {α β : Type} {causes causes' : Fault → Prop} {good good' : α → Prop} {next : β → Prop}
  {r : Except Problem α}

theorem ok {a : α} (holds : good a) : Explained causes good (.ok a) := holds

theorem malformed : Explained causes good (.error .malformed) := trivial

theorem bind {f : α → Except Problem β} (first : Explained causes good r)
    (later : ∀ a, good a → Explained causes next (f a)) : Explained causes next (r >>= f) := by
  cases r with
  | ok a => exact later a first
  | error p => cases p <;> exact first

/-- What is left undone has to be shown nothing about. -/
theorem malformed_bind {f : α → Except Problem β} :
    Explained causes next (throw .malformed >>= f) := trivial

theorem ite {p : Prop} [Decidable p] {r' : Except Problem α}
    (yes : p → Explained causes good r) (no : ¬p → Explained causes good r') :
    Explained causes good (if p then r else r') := by
  split
  · next holds => exact yes holds
  · next fails => exact no fails

theorem mono (explained : Explained causes good r) (weaker : ∀ f, causes f → causes' f)
    (follows : ∀ a, good a → good' a) : Explained causes' good' r := by
  cases r with
  | ok a => exact follows a explained
  | error p =>
    cases p with
    | malformed => exact trivial
    | fault f => exact weaker f explained

end Explained

/-! ## Steps -/

/-- From every state with a property, a step leads to such a state and to a good result, or stops
with a fault that has a cause. -/
def Keeps {σ α : Type} (causes : Fault → Prop) (holds : σ → Prop) (good : α → Prop)
    (m : StateT σ (Except Problem) α) : Prop :=
  ∀ s, holds s → Explained causes (fun r => good r.1 ∧ holds r.2) (m s)

namespace Keeps

variable {σ α β : Type} {causes causes' : Fault → Prop} {holds : σ → Prop}
  {good good' : α → Prop} {next : β → Prop} {m : StateT σ (Except Problem) α}

theorem pure {a : α} (fits : good a) : Keeps causes holds good (Pure.pure a) :=
  fun _ before => ⟨fits, before⟩

theorem malformed : Keeps causes holds good (throw .malformed) := fun _ _ => trivial

theorem malformed_bind {f : α → StateT σ (Except Problem) β} :
    Keeps causes holds next (throw .malformed >>= f) := fun _ _ => trivial

theorem fault {f : Fault} (cause : causes f) : Keeps causes holds good (throw (.fault f)) :=
  fun _ _ => cause

theorem bind {f : α → StateT σ (Except Problem) β} (first : Keeps causes holds good m)
    (later : ∀ a, good a → Keeps causes holds next (f a)) :
    Keeps causes holds next (m >>= f) :=
  fun s before => Explained.bind (first s before) fun r after => later r.1 after.1 r.2 after.2

theorem mono (keeps : Keeps causes holds good m) (weaker : ∀ f, causes f → causes' f)
    (follows : ∀ a, good a → good' a) : Keeps causes' holds good' m :=
  fun s before => (keeps s before).mono weaker fun _ after => ⟨follows _ after.1, after.2⟩

theorem map {f : α → β} (keeps : Keeps causes holds good m) (follows : ∀ a, good a → next (f a)) :
    Keeps causes holds next (f <$> m) := by
  rw [map_eq_pure_bind]
  exact keeps.bind fun a fits => pure (follows a fits)

theorem get : Keeps causes holds holds (MonadState.get : StateT σ (Except Problem) σ) :=
  fun _ before => ⟨before, before⟩

theorem set {s : σ} (after : holds s) :
    Keeps causes holds (fun _ => True) (MonadStateOf.set s : StateT σ (Except Problem) PUnit) :=
  fun _ _ => ⟨trivial, after⟩

theorem update {f : σ → σ} (after : ∀ s, holds s → holds (f s)) :
    Keeps causes holds (fun _ => True) (modify f : StateT σ (Except Problem) PUnit) :=
  fun s before => ⟨trivial, after s before⟩

theorem lift {r : Except Problem α} (explained : Explained causes good r) :
    Keeps causes holds good (liftM r : StateT σ (Except Problem) α) := by
  intro s before
  cases r with
  | ok a => exact ⟨explained, before⟩
  | error p => cases p <;> exact explained

theorem mapM {f : α → StateT σ (Except Problem) β} {items : List α}
    (each : ∀ a ∈ items, Keeps causes holds next (f a)) :
    Keeps causes holds (fun found => ∀ b ∈ found, next b) (items.mapM f) := by
  induction items with
  | nil => exact pure (List.forall_mem_nil _)
  | cons a items ih =>
    rw [List.mapM_cons]
    refine bind (each a List.mem_cons_self) fun b first => ?_
    refine bind (ih fun c member => each c (List.mem_cons_of_mem a member)) fun found others => ?_
    exact pure (List.forall_mem_cons.mpr ⟨first, others⟩)

theorem forM {f : α → StateT σ (Except Problem) PUnit} {items : List α}
    (each : ∀ a ∈ items, Keeps causes holds (fun _ => True) (f a)) :
    Keeps causes holds (fun _ => True) (items.forM f) := by
  induction items with
  | nil => exact pure trivial
  | cons a items ih =>
    refine bind (each a List.mem_cons_self) fun _ _ => ?_
    exact ih fun c member => each c (List.mem_cons_of_mem a member)

end Keeps

end SwaggerDoc.Yaml
