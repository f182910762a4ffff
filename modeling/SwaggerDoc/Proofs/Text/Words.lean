import SwaggerDoc.Proofs.Text.Split
import SwaggerDoc.Text.Blank
import SwaggerDoc.Text.LowerCase
import Mathlib.Data.List.Forall2
import Mathlib.Data.List.TakeWhile

/-!
Words between blanks, in any letter case.

Trimming a text takes it apart into what it drops at both ends and what it keeps (`exists_trim`). A
word of the basic alphabet without the letter k is what a text becomes in small letters only if the
text is that word with some letters made capitals (`lowerCase_eq_iff`): no character beyond the
basic alphabet has small letters of the basic alphabet alone, except for the sign of the kelvin,
whose small letter is the k.
-/

namespace SwaggerDoc.Text

/-! ## Trimming -/

section Trim

variable {drop : CodePoint → Bool}

theorem exists_trimEnd (drop : CodePoint → Bool) (t : Text) :
    ∃ behind, t = trimEnd drop t ++ behind ∧ ∀ c ∈ behind, drop c = true := by
  refine ⟨(t.reverse.takeWhile drop).reverse, ?_, ?_⟩
  · rw [trimEnd, ← List.reverse_append, List.takeWhile_append_dropWhile, List.reverse_reverse]
  · intro c member
    exact List.mem_takeWhile_imp (List.mem_reverse.mp member)

/-- A text is what trimming leaves between two texts that are dropped. -/
theorem exists_trim (drop : CodePoint → Bool) (t : Text) :
    ∃ front behind, t = front ++ trim drop t ++ behind ∧ (∀ c ∈ front, drop c = true) ∧
      ∀ c ∈ behind, drop c = true := by
  obtain ⟨behind, parts, dropped⟩ := exists_trimEnd drop (t.dropWhile drop)
  refine ⟨t.takeWhile drop, behind, ?_, fun c member => List.mem_takeWhile_imp member, dropped⟩
  rw [List.append_assoc, trim, ← parts, List.takeWhile_append_dropWhile]

theorem trim_of_dropped {t : Text} (dropped : ∀ c ∈ t, drop c = true) : trim drop t = [] := by
  rw [trim, List.dropWhile_eq_nil_iff.mpr dropped]
  rfl

/-- What is kept stays as it is between texts that are dropped. -/
theorem trim_between {front t behind : Text} (droppedFront : ∀ c ∈ front, drop c = true)
    (kept : ∀ c ∈ t, drop c = false) (dropped : ∀ c ∈ behind, drop c = true) :
    trim drop (front ++ t ++ behind) = t := by
  rw [trim, List.append_assoc, List.dropWhile_append_of_pos droppedFront]
  cases t with
  | nil => exact trim_of_dropped dropped
  | cons c rest =>
    have first : ¬ drop c = true := by simp [kept c List.mem_cons_self]
    rw [List.cons_append, List.dropWhile_cons_of_neg first, ← List.cons_append]
    obtain ⟨inner, last, ends⟩ :=
      (List.eq_nil_or_concat' (c :: rest)).resolve_left (List.cons_ne_nil c rest)
    rw [ends] at kept ⊢
    exact trimEnd_concat_append (kept last List.mem_concat_self) dropped inner

theorem trim_eq_nil_iff {t : Text} : trim drop t = [] ↔ ∀ c ∈ t, drop c = true := by
  refine ⟨fun nothing => ?_, trim_of_dropped⟩
  obtain ⟨front, behind, parts, droppedFront, dropped⟩ := exists_trim drop t
  rw [nothing, List.append_nil] at parts
  rw [parts]
  exact List.forall_mem_append.mpr ⟨droppedFront, dropped⟩

end Trim

/-! ## Small letters of the basic alphabet -/

/-- The text is the word with some of its small letters made capitals. -/
def IsCasingOf (t word : Text) : Prop := List.Forall₂ (fun c d => c = d ∨ c + 32 = d) t word

theorem isCasingOf_refl (word : Text) : word.IsCasingOf word :=
  List.forall₂_same.mpr fun _ _ => .inl rfl

/-- The capitals of letters are letters. -/
theorem IsCasingOf.letters {t word : Text} (cased : t.IsCasingOf word)
    (letters : ∀ d ∈ word, 97 ≤ d ∧ d ≤ 122) : ∀ c ∈ t, 65 ≤ c ∧ c ≤ 122 := by
  induction cased with
  | nil => exact List.forall_mem_nil _
  | cons same _ later =>
    obtain ⟨first, rest⟩ := List.forall_mem_cons.mp letters
    refine List.forall_mem_cons.mpr ⟨?_, later rest⟩
    dsimp only [CodePoint] at *
    omega

/-- Only one run has capitals of the basic alphabet, and only the sign of the kelvin is a capital
beyond it with a small letter in it. -/
theorem capitalRuns_reach :
    capitalRuns.all (fun r =>
      r.last < 128 || 128 ≤ r.first && (128 ≤ r.small || r.small == 107 && r.first == r.last)) =
        true := by
  decide

theorem lowerAt_basic {c : Nat} (basic : c < 128) (front behind : Text) :
    lowerAt front c behind = [lowerLetter c] := by
  have table : ∀ c < 128, lowerAt [] c [] = [lowerLetter c] := by decide +kernel
  have notDotted : c ≠ 0x130 := by omega
  have noSigma : c ≠ 0x3A3 := by omega
  rw [← table c basic]
  simp only [lowerAt, if_neg notDotted, if_neg noSigma]

/-- In small letters, what is beyond the basic alphabet stays beyond it or becomes a k. -/
theorem exists_mem_lowerAt {c : Nat} (beyond : 128 ≤ c) (front behind : Text) :
    ∃ d ∈ lowerAt front c behind, 128 ≤ d ∨ d = 107 := by
  unfold lowerAt
  split
  · exact ⟨0x307, by simp, by decide⟩
  · split
    · refine ⟨_, List.mem_singleton_self _, .inl ?_⟩
      split <;> decide
    · cases found : capitalRuns.find? (·.holds c) with
      | none => exact ⟨c, List.mem_singleton_self c, .inl beyond⟩
      | some run =>
        refine ⟨_, List.mem_singleton_self _, ?_⟩
        have reach := List.all_eq_true.mp capitalRuns_reach run (List.mem_of_find?_eq_some found)
        have holds := List.find?_some found
        simp only [CapitalRun.holds, Bool.and_eq_true, Bool.or_eq_true, decide_eq_true_eq,
          beq_iff_eq] at reach holds
        dsimp only [CapitalRun.lower, CodePoint] at *
        omega

theorem lowerLetter_eq_iff {c d : Nat} (letter : 97 ≤ d ∧ d ≤ 122) :
    lowerLetter c = d ↔ c = d ∨ c + 32 = d := by
  simp only [lowerLetter, Bool.and_eq_true, decide_eq_true_eq]
  dsimp only [CodePoint] at *
  split <;> omega

/-- The rest of a text in small letters is a word without the k exactly if it is a casing of it. -/
theorem lowerFrom_eq_iff {t word : Text}
    (letters : ∀ d ∈ word, 97 ≤ d ∧ d ≤ 122 ∧ d ≠ 107) (front : Text) :
    lowerFrom front t = word ↔ t.IsCasingOf word := by
  induction t generalizing front word with
  | nil =>
    rw [lowerFrom, IsCasingOf, List.forall₂_nil_left_iff]
    exact eq_comm
  | cons c t ih =>
    rw [lowerFrom]
    by_cases basic : c < 128
    · rw [lowerAt_basic basic, List.singleton_append]
      cases word with
      | nil => simp [IsCasingOf]
      | cons d word =>
        obtain ⟨⟨least, greatest, -⟩, later⟩ := List.forall_mem_cons.mp letters
        rw [List.cons.injEq, lowerLetter_eq_iff ⟨least, greatest⟩, ih later, IsCasingOf, IsCasingOf,
          List.forall₂_cons]
    · constructor
      · rintro rfl
        obtain ⟨d, member, far⟩ := exists_mem_lowerAt (Nat.le_of_not_lt basic) front t
        have letter := letters d (List.mem_append_left _ member)
        dsimp only [CodePoint] at *
        omega
      · -- A casing has no character beyond the alphabet.
        rintro (_ | ⟨same, -⟩)
        have letter := letters _ List.mem_cons_self
        dsimp only [CodePoint] at *
        omega

theorem lowerCase_eq_iff {t word : Text} (letters : ∀ d ∈ word, 97 ≤ d ∧ d ≤ 122 ∧ d ≠ 107) :
    t.lowerCase = word ↔ t.IsCasingOf word :=
  lowerFrom_eq_iff letters []

/-- The sign of the kelvin is a capital k. -/
example : lowerCase [0x212A] = text "k" := by decide +kernel

/-- The capital I with a dot does not become an i alone. -/
example : lowerCase (0x130 :: text "NDEX") ≠ text "index" := by decide +kernel

end SwaggerDoc.Text
