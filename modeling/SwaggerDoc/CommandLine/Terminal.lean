import SwaggerDoc.Text.Basic

/-!
Control sequences, with which a text moves the cursor of a terminal or changes its colours.

Where the output is no terminal, nothing would carry them out, so they are left out of a text. A
text that only begins like a sequence stays.
-/

namespace SwaggerDoc.CommandLine

/-- The characters of a sequence that give its parameters: digits and their separators. -/
def isParameter (c : CodePoint) : Bool := 0x30 ≤ c && c ≤ 0x3F

/-- The characters that may stand between the parameters of a sequence and its end. -/
def isIntermediate (c : CodePoint) : Bool := 0x20 ≤ c && c ≤ 0x2F

/-- The characters that end a sequence. -/
def isFinal (c : CodePoint) : Bool := 0x40 ≤ c && c ≤ 0x7E

/-- How long the control sequence is with which a text begins; zero if it begins with none. -/
def sequenceLength : Text → Nat
  | 0x1B :: 0x5B :: rest =>
    let parameters := rest.takeWhile isParameter
    let afterParameters := rest.dropWhile isParameter
    let intermediates := afterParameters.takeWhile isIntermediate
    match afterParameters.dropWhile isIntermediate with
    | c :: _ => if isFinal c then parameters.length + intermediates.length + 3 else 0
    | [] => 0
  | _ => 0

/-- A text without its control sequences, and without the rest of one that has begun: its first
`skipped` characters. -/
def withoutSequencesAfter (skipped : Nat) : Text → Text
  | [] => []
  | c :: rest =>
    match skipped with
    | n + 1 => withoutSequencesAfter n rest
    | 0 =>
      match sequenceLength (c :: rest) with
      | 0 => c :: withoutSequencesAfter 0 rest
      | n + 1 => withoutSequencesAfter n rest

/-- A text without its control sequences. -/
def withoutSequences (t : Text) : Text := withoutSequencesAfter 0 t

/-- A sequence begins with an escape. -/
theorem sequenceLength_of_ne {c : CodePoint} (other : c ≠ 0x1B) (rest : Text) :
    sequenceLength (c :: rest) = 0 := by
  unfold sequenceLength
  split
  · simp_all
  · rfl

/-- A text without escapes stays as it is. -/
theorem withoutSequences_of_not_mem {t : Text} (absent : 0x1B ∉ t) : withoutSequences t = t := by
  unfold withoutSequences
  induction t with
  | nil => rfl
  | cons c rest ih =>
    simp only [List.mem_cons, not_or] at absent
    simp [withoutSequencesAfter, sequenceLength_of_ne (Ne.symm absent.1), ih absent.2]

end SwaggerDoc.CommandLine
