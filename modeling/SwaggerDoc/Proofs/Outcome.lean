import SwaggerDoc.Definition.Basic

/-!
Runs that come to a result.

A run of several parts comes to a result only if every part does.
-/

namespace SwaggerDoc

theorem Except.exists_ok_of_bind {ε α β : Type} {r : Except ε α} {f : α → Except ε β} {b : β}
    (done : (r >>= f) = .ok b) : ∃ a, r = .ok a ∧ f a = .ok b := by
  cases r with
  | error e => cases done
  | ok a => exact ⟨a, rfl, done⟩

theorem Except.exists_ok_of_map {ε α β : Type} {r : Except ε α} {f : α → β} {b : β}
    (done : r.map f = .ok b) : ∃ a, r = .ok a ∧ f a = b := by
  cases r with
  | error e => cases done
  | ok a => exact ⟨a, rfl, Except.ok.inj done⟩

theorem Except.error_of_bind {ε α β : Type} {r : Except ε α} {f : α → Except ε β} {e : ε}
    (failed : (r >>= f) = .error e) : r = .error e ∨ ∃ a, r = .ok a ∧ f a = .error e := by
  cases r with
  | error e' =>
    obtain rfl : e' = e := Except.error.inj failed
    exact .inl rfl
  | ok a => exact .inr ⟨a, rfl, failed⟩

theorem Except.exists_of_mapM_error {ε α β : Type} {f : α → Except ε β} {items : List α} {e : ε}
    (failed : items.mapM f = .error e) : ∃ a ∈ items, f a = .error e := by
  induction items with
  | nil => cases failed
  | cons a items ih =>
    rw [List.mapM_cons] at failed
    rcases Except.error_of_bind failed with first | ⟨b, -, failed⟩
    · exact ⟨a, List.mem_cons_self, first⟩
    · rcases Except.error_of_bind failed with later | ⟨found, -, failed⟩
      · obtain ⟨a', member, failed⟩ := ih later
        exact ⟨a', List.mem_cons_of_mem a member, failed⟩
      · cases failed

theorem Except.length_of_mapM {ε α β : Type} {f : α → Except ε β} {items : List α}
    {found : List β} (done : items.mapM f = .ok found) : found.length = items.length := by
  induction items generalizing found with
  | nil =>
    obtain rfl := Except.ok.inj done
    rfl
  | cons a items ih =>
    rw [List.mapM_cons] at done
    obtain ⟨b, -, done⟩ := Except.exists_ok_of_bind done
    obtain ⟨later, others, done⟩ := Except.exists_ok_of_bind done
    obtain rfl := Except.ok.inj done
    rw [List.length_cons, List.length_cons, ih others]

theorem Except.mapM_congr {ε α β : Type} {f g : α → Except ε β} {items : List α}
    (same : ∀ a ∈ items, f a = g a) : items.mapM f = items.mapM g := by
  induction items with
  | nil => rfl
  | cons a rest ih =>
    rw [List.mapM_cons, List.mapM_cons, same a List.mem_cons_self,
      ih fun b member => same b (List.mem_cons_of_mem a member)]

/-! ## Filtering -/

theorem Except.filterAuxM_ok {ε α : Type} (test : α → Bool) (items found : List α) :
    items.filterAuxM (fun a => (.ok (test a) : Except ε Bool)) found =
      .ok ((items.filter test).reverse ++ found) := by
  induction items generalizing found with
  | nil => rfl
  | cons a items ih =>
    cases kept : test a <;> simp [List.filterAuxM, bind, Except.bind, kept, ih]

theorem Except.filterM_ok {ε α : Type} (test : α → Bool) (items : List α) :
    (items.filterM fun a => (.ok (test a) : Except ε Bool)) = .ok (items.filter test) := by
  simp [List.filterM, Except.filterAuxM_ok, bind, Except.bind, pure, Except.pure]

theorem Except.filterAuxM_append {ε α : Type} {test : α → Except ε Bool} (later : List α)
    {items found kept : List α} (done : items.filterAuxM test found = .ok kept) :
    items.filterAuxM test (found ++ later) = .ok (kept ++ later) := by
  induction items generalizing found with
  | nil =>
    obtain rfl := Except.ok.inj done
    rfl
  | cons a items ih =>
    obtain ⟨passes, tested, done⟩ := Except.exists_ok_of_bind done
    simp only [List.filterAuxM, tested]
    cases passes with
    | true => exact ih done
    | false => exact ih done

theorem Except.filterM_cons_ok {ε α : Type} {test : α → Except ε Bool} {a : α} {passes : Bool}
    {items kept : List α} (tested : test a = .ok passes) (done : items.filterM test = .ok kept) :
    (a :: items).filterM test = .ok (if passes then a :: kept else kept) := by
  obtain ⟨found, filtered, done⟩ := Except.exists_ok_of_bind done
  obtain rfl := Except.ok.inj done
  simp only [List.filterM, List.filterAuxM, tested, bind, Except.bind]
  cases passes with
  | true =>
    have filtered : items.filterAuxM test [a] = .ok (found ++ [a]) :=
      Except.filterAuxM_append [a] filtered
    simp [filtered, pure, Except.pure]
  | false => simp [filtered, pure, Except.pure]

theorem Except.mem_of_filterAuxM {ε α : Type} {test : α → Except ε Bool} {items found kept : List α}
    (done : items.filterAuxM test found = .ok kept) : ∀ a ∈ kept, a ∈ items ∨ a ∈ found := by
  induction items generalizing found with
  | nil =>
    obtain rfl := Except.ok.inj done
    exact fun a member => .inr member
  | cons b rest ih =>
    obtain ⟨passes, -, done⟩ := Except.exists_ok_of_bind done
    intro a member
    rcases ih done a member with later | before
    · exact .inl (List.mem_cons_of_mem _ later)
    · cases passes with
      | true =>
        rcases List.mem_cons.mp before with rfl | before
        · exact .inl List.mem_cons_self
        · exact .inr before
      | false => exact .inr before

theorem Except.mem_of_filterM {ε α : Type} {test : α → Except ε Bool} {items kept : List α}
    (done : items.filterM test = .ok kept) : ∀ a ∈ kept, a ∈ items := by
  intro a member
  obtain ⟨found, filtered, done⟩ := Except.exists_ok_of_bind done
  obtain rfl := Except.ok.inj done
  rcases Except.mem_of_filterAuxM filtered a (List.mem_reverse.mp member) with listed | none
  · exact listed
  · cases none

/-! ## Reports -/

namespace Report

variable {α β : Type}

theorem exists_of_bind {r : Report α} {f : α → Report β} {j : Journal} {b : β}
    (done : ((r >>= f) j).1 = .ok b) :
    ∃ a j', (r j).1 = .ok a ∧ (f a j').1 = .ok b := by
  simp only [Bind.bind, bind] at done
  split at done
  · cases done
  · next a j' same =>
    rw [same]
    exact ⟨a, j', rfl, done⟩

theorem of_blame {r : Report α} {field : Name} {j : Journal} {a : α}
    (done : (r.blame field j).1 = .ok a) : (r j).1 = .ok a := by
  unfold blame at done
  split at done
  · cases done
  · exact done

end Report

end SwaggerDoc
