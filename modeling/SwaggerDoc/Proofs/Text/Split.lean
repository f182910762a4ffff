import SwaggerDoc.Text.Basic

/-!
The parts of a text.

Cutting at a separator that stands between two texts cuts each of them (`split_append_separator`), a
part has no separator in it, and a text without one is its only part. Separators at the end of a text
can be trimmed first, and what they stand behind stays as it is.
-/

namespace SwaggerDoc.Text

variable {separator : CodePoint}

theorem exists_split_cons_of_ne {c : CodePoint} (other : c ≠ separator) (t : Text) :
    ∃ part parts, split separator t = part :: parts ∧
      split separator (c :: t) = (c :: part) :: parts := by
  induction t generalizing c with
  | nil => exact ⟨[], [], rfl, by simp [split, other]⟩
  | cons d t ih =>
    by_cases same : d = separator
    · exact ⟨[], split separator t, by simp [split, same], by simp [split, same, other]⟩
    · obtain ⟨part, parts, -, cut⟩ := ih same
      refine ⟨d :: part, parts, cut, ?_⟩
      rw [split, if_neg other, cut]

theorem split_cons_separator (t : Text) :
    split separator (separator :: t) = [] :: split separator t :=
  if_pos rfl

/-- A separator between two texts parts them. -/
theorem split_append_separator (front rest : Text) :
    split separator (front ++ separator :: rest) = split separator front ++ split separator rest := by
  induction front with
  | nil => exact split_cons_separator rest
  | cons c front ih =>
    by_cases same : c = separator
    · rw [same, List.cons_append, split_cons_separator, split_cons_separator, ih,
        List.cons_append]
    · obtain ⟨part, parts, whole, cut⟩ := exists_split_cons_of_ne same (front ++ separator :: rest)
      obtain ⟨part', parts', whole', cut'⟩ := exists_split_cons_of_ne same front
      rw [ih, whole', List.cons_append] at whole
      obtain ⟨rfl, rfl⟩ := List.cons.inj whole
      rw [List.cons_append, cut, cut', List.cons_append]

theorem split_of_not_mem {t : Text} (none : separator ∉ t) : split separator t = [t] := by
  induction t with
  | nil => rfl
  | cons c t ih =>
    obtain ⟨other, later⟩ := List.ne_and_not_mem_of_not_mem_cons none
    rw [split, if_neg (Ne.symm other), ih later]

theorem not_mem_of_mem_split {t part : Text} (member : part ∈ split separator t) :
    separator ∉ part := by
  induction t generalizing part with
  | nil =>
    rw [List.mem_singleton.mp member]
    exact List.not_mem_nil
  | cons c t ih =>
    by_cases same : c = separator
    · rw [same, split_cons_separator] at member
      rcases List.mem_cons.mp member with rfl | later
      · exact List.not_mem_nil
      · exact ih later
    · obtain ⟨first, parts, whole, cut⟩ := exists_split_cons_of_ne same t
      rw [whole] at ih
      rw [cut] at member
      rcases List.mem_cons.mp member with rfl | later
      · exact List.not_mem_cons_of_ne_of_not_mem (Ne.symm same) (ih List.mem_cons_self)
      · exact ih (List.mem_cons_of_mem _ later)

/-- What is to be dropped behind a character that is kept is trimmed, and nothing else. -/
theorem trimEnd_concat_append {drop : CodePoint → Bool} {d : CodePoint} (kept : drop d = false)
    {behind : Text} (dropped : ∀ c ∈ behind, drop c = true) (t : Text) :
    trimEnd drop (t ++ [d] ++ behind) = t ++ [d] := by
  have dropped' : ∀ c ∈ behind.reverse, drop c = true := fun c member =>
    dropped c (List.mem_reverse.mp member)
  rw [trimEnd, List.reverse_append, List.dropWhile_append_of_pos dropped', List.reverse_concat,
    List.dropWhile_cons_of_neg (by simp [kept]), List.reverse_cons, List.reverse_reverse]

/-- Slashes at the end of a text that does not itself end in one are trimmed. -/
theorem trimEnd_append_replicate {t : Text} {c d : CodePoint} (other : d ≠ c) (n : Nat) :
    trimEnd (· == c) (t ++ [d] ++ List.replicate n c) = t ++ [d] :=
  trimEnd_concat_append (by simpa using other)
    (fun x member => by simpa using List.eq_of_mem_replicate member) t

end SwaggerDoc.Text
