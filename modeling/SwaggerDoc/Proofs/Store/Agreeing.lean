import Mathlib.Data.Finset.Card
import Mathlib.Data.Finset.Range
import Mathlib.Order.Monotone.Basic
import SwaggerDoc.Proofs.Store.Shown
import SwaggerDoc.Schema.Checked

/-!
Stores between which reading makes no difference.

Two stores agree on some values if the same lies where these point to, all the way down. A store
agrees with itself on all values and with what extends it on all that it holds.

Checks and readings go down into values to a bounded depth. They can come to nothing but fewer and
fewer places as the bound grows, and `settled` says that this ends as soon as there are as many
rounds as places.
-/

namespace SwaggerDoc

/-! ## Rounds come to an end -/

/-- What holds of fewer and fewer places, and no longer changes once it does not change in a round,
does not change after as many rounds as there are places. -/
theorem settled {size : Nat} (holds : Nat → Place → Prop)
    (shrinks : ∀ n p, holds (n + 1) p → holds n p) (filled : ∀ n p, holds n p → p < size)
    (stays : ∀ n, (∀ p, holds n p → holds (n + 1) p) → ∀ p, holds (n + 1) p → holds (n + 2) p)
    {n m : Nat} (many : size ≤ n) (later : n ≤ m) {p : Place} (now : holds n p) : holds m p := by
  classical
  let others (n : Nat) : Finset Place := (Finset.range size).filter fun p => ¬ holds n p
  have grow (n : Nat) : others n ⊆ others (n + 1) :=
    Finset.monotone_filter_right _ fun p _ fails again => fails (shrinks n p again)
  have of_card {n m : Nat} (subset : others n ⊆ others m)
      (same : (others n).card = (others m).card) {p : Place} (now : holds n p) : holds m p := by
    have equal := Finset.eq_of_subset_of_card_le subset same.ge
    by_contra fails
    have member : p ∈ others m := by simp [others, fails, filled n p now]
    rw [← equal] at member
    exact (Finset.mem_filter.mp member).2 now
  have monotone : Monotone others := monotone_nat_of_le_succ grow
  have card_mono : Monotone fun n => (others n).card :=
    fun _ _ le => Finset.card_le_card (monotone le)
  have bounded (n : Nat) : (others n).card ≤ size := by
    simpa using Finset.card_filter_le (Finset.range size) fun p => ¬ holds n p
  have stable (n : Nat) (same : (others n).card = (others (n + 1)).card) :
      (others (n + 1)).card = (others (n + 2)).card := by
    have still := stays n fun p => of_card (grow n) same
    have shrink : others (n + 2) ⊆ others (n + 1) :=
      Finset.monotone_filter_right _ fun p _ fails again => fails (still p again)
    exact congrArg Finset.card ((grow (n + 1)).antisymm shrink)
  have last (n : Nat) (many : size ≤ n) : (others n).card = (others size).card :=
    Nat.stabilises_of_monotone card_mono bounded stable many
  exact of_card (monotone later) ((last n many).trans (last m (many.trans later)).symm) now

namespace Store

variable {s t u : Store}

/-! ## Agreement -/

/-- The same lies in both stores where the values point to, and the same is shown for them. -/
structure Agrees (s t : Store) (values : Value → Prop) : Prop extends s.Keeps t values where
  shownAttributes?_eq : ∀ {p}, values (.ref p) → t.shownAttributes? p = s.shownAttributes? p
  shown_eq : ∀ {v}, values v → t.shown v = s.shown v
  written_eq : ∀ {v}, values v → t.written v = s.written v

theorem agrees_self (s : Store) : s.Agrees s fun _ => True where
  deref?_eq _ := rfl
  parts _ _ _ _ := trivial
  shownAttributes?_eq _ := rfl
  shown_eq _ := rfl
  written_eq _ := rfl

variable {values : Value → Prop}

theorem Agrees.symm (agrees : s.Agrees t values) : t.Agrees s values where
  deref?_eq inside := (agrees.deref?_eq inside).symm
  parts inside cell := agrees.parts inside ((agrees.deref?_eq inside).symm.trans cell)
  shownAttributes?_eq inside := (agrees.shownAttributes?_eq inside).symm
  shown_eq inside := (agrees.shown_eq inside).symm
  written_eq inside := (agrees.written_eq inside).symm

theorem Extends.shownAttributes?_eq (extends' : s.Extends u) {p : Place} (filled : p < s.size) :
    u.shownAttributes? p = s.shownAttributes? p := by
  rw [shownAttributes?, attributes?, extends'.cell?_eq p filled, extends'.givenTo_eq p filled]
  rfl

/-- What extends a closed store agrees with it on all that it holds. -/
theorem Closed.agrees_of_extends (closed : s.Closed) (extends' : s.Extends u) :
    s.Agrees u s.Holds where
  toKeeps := closed.keeps_of_extends extends'
  shownAttributes?_eq held := extends'.shownAttributes?_eq (holds_ref.mp held)
  shown_eq held := closed.shown_of_extends extends' held
  written_eq held := closed.written_of_extends extends' held

section Agreement

variable (agrees : s.Agrees t values) {v : Value}
include agrees

theorem Agrees.items?_eq (inside : values v) : Check.items? t v = Check.items? s v := by
  cases v with
  | scalar x => rfl
  | ref p =>
    have cell : t.cell? p = s.cell? p := agrees.deref?_eq inside
    rw [Check.items?, Check.items?, cell, agrees.shownAttributes?_eq inside]

theorem Agrees.list_eq {α : Type} (check : Value → Checked α) (inside : values v) :
    Check.list t check v = Check.list s check v := by
  rw [Check.list, Check.list, agrees.items?_eq inside]

theorem Agrees.step_eq (inside : values v) : Check.step t v = Check.step s v := by
  have shown : Check.shownKey t v = Check.shownKey s v := by
    rw [Check.shownKey, Check.shownKey, agrees.shown_eq inside, Check.unprintable,
      Check.unprintable, agrees.deref?_eq inside]
  cases v <;> simp only [Check.step, shown]

theorem Agrees.key_eq (inside : values v) : Check.key t v = Check.key s v := by
  rw [Check.key, Check.key, agrees.step_eq inside]

end Agreement

end Store

end SwaggerDoc
