import SwaggerDoc.Text.Octets

/-!
Texts as octets and back.

Every text of characters has octets, and the octets of a text are read as the text.
-/

namespace SwaggerDoc.Octets

/-- A character: no surrogate half, and among the numbers of characters. -/
def IsCharacter (c : CodePoint) : Prop := Text.isSurrogate c = false ∧ c < 0x110000

theorem isCharacter_of_lt {c : CodePoint} (low : c < 0xD800) : IsCharacter c := by
  have below : ¬ 0xD800 ≤ c := Nat.not_le.mpr low
  exact ⟨by simp [Text.isSurrogate, below], Nat.lt_trans low (by decide)⟩

section Decoding

variable {position octet read least greatest bits o : Nat} {done : Text} {rest : Octets}

theorem decodeFrom_lead (position : Nat) (done : Text) (rest : Octets) {l : Lead}
    (lead : lead? o = some l) (more : l.more ≠ 0) :
    decodeFrom position .between done (o :: rest) =
      decodeFrom (position + 1) (.within o 1 l.more l.least l.greatest l.bits) done rest := by
  rw [decodeFrom]
  simp only [lead, if_neg more]

theorem decodeFrom_last (inside : least ≤ o ∧ o ≤ greatest) :
    decodeFrom position (.within octet read 1 least greatest bits) done (o :: rest) =
      decodeFrom (position + 1) .between ((bits * 64 + (o - 0x80)) :: done) rest := by
  rw [decodeFrom]
  simp [inside]

theorem decodeFrom_more (owed : Nat) (inside : least ≤ o ∧ o ≤ greatest) :
    decodeFrom position (.within octet read (owed + 2) least greatest bits) done (o :: rest) =
      decodeFrom (position + 1)
        (.within octet (read + 1) (owed + 1) 0x80 0xBF (bits * 64 + (o - 0x80))) done rest := by
  rw [decodeFrom]
  simp [inside]

end Decoding

section Leads

variable {c : Nat}

theorem lead_two (least : 0x80 ≤ c) (greatest : c < 0x800) :
    lead? (0xC0 + c / 64) = some ⟨1, 0x80, 0xBF, c / 64⟩ := by
  unfold lead?
  rw [if_neg (by omega), if_neg (by omega), if_pos (by omega), Nat.add_sub_cancel_left]

/-- The bounds of the second octet leave out longer forms and surrogate halves. -/
theorem lead_three (least : 0x800 ≤ c) (greatest : c < 0x10000)
    (noSurrogate : c < 0xD800 ∨ 0xDFFF < c) :
    ∃ a b, lead? (0xE0 + c / 4096) = some ⟨2, a, b, c / 4096⟩ ∧ a ≤ 0x80 + c / 64 % 64 ∧
      0x80 + c / 64 % 64 ≤ b := by
  unfold lead?
  rw [if_neg (by omega), if_neg (by omega), if_neg (by omega)]
  by_cases first : c / 4096 = 0
  · rw [if_pos (by omega), first]
    exact ⟨0xA0, 0xBF, rfl, by omega, by omega⟩
  · rw [if_neg (by omega)]
    by_cases surrogates : c / 4096 = 0xD
    · rw [if_pos (by omega), surrogates]
      exact ⟨0x80, 0x9F, rfl, by omega, by omega⟩
    · rw [if_neg (by omega), if_pos (by omega), Nat.add_sub_cancel_left]
      exact ⟨0x80, 0xBF, rfl, by omega, by omega⟩

/-- The bounds of the second octet leave out longer forms and what is beyond the last character. -/
theorem lead_four (least : 0x10000 ≤ c) (greatest : c < 0x110000) :
    ∃ a b, lead? (0xF0 + c / 262144) = some ⟨3, a, b, c / 262144⟩ ∧ a ≤ 0x80 + c / 4096 % 64 ∧
      0x80 + c / 4096 % 64 ≤ b := by
  unfold lead?
  rw [if_neg (by omega), if_neg (by omega), if_neg (by omega), if_neg (by omega),
    if_neg (by omega), if_neg (by omega)]
  by_cases first : c / 262144 = 0
  · rw [if_pos (by omega), first]
    exact ⟨0x90, 0xBF, rfl, by omega, by omega⟩
  · rw [if_neg (by omega)]
    by_cases last : c / 262144 = 4
    · rw [if_neg (by omega), if_pos (by omega), last]
      exact ⟨0x80, 0x8F, rfl, by omega, by omega⟩
    · rw [if_pos (by omega), Nat.add_sub_cancel_left]
      exact ⟨0x80, 0xBF, rfl, by omega, by omega⟩

end Leads

/-- The octets of a character are read as the character. -/
theorem decodeFrom_ofCodePoint {c : Nat} {octets : Octets} (encoded : ofCodePoint? c = some octets)
    (position : Nat) (done : Text) (rest : Octets) :
    decodeFrom position .between done (octets ++ rest) =
      decodeFrom (position + octets.length) .between (c :: done) rest := by
  unfold ofCodePoint? at encoded
  dsimp only [CodePoint] at encoded
  split at encoded
  · next one =>
    obtain rfl := Option.some.inj encoded
    have lead : lead? c = some ⟨0, 0, 0, c⟩ := if_pos one
    rw [List.singleton_append, decodeFrom]
    simp only [lead, if_true]
    rfl
  split at encoded
  · next high two =>
    obtain rfl := Option.some.inj encoded
    have lead := lead_two (by omega) two
    have second : 0x80 ≤ 0x80 + c % 64 ∧ 0x80 + c % 64 ≤ 0xBF := by omega
    have same : c / 64 * 64 + (0x80 + c % 64 - 0x80) = c := by omega
    have run := (decodeFrom_lead position done ([0x80 + c % 64] ++ rest) lead nofun).trans
      (decodeFrom_last second)
    rwa [same] at run
  split at encoded
  · cases encoded
  split at encoded
  · next high _ character three =>
    obtain rfl := Option.some.inj encoded
    have noSurrogate : c < 0xD800 ∨ 0xDFFF < c := by
      simp [Text.isSurrogate] at character
      dsimp only [CodePoint] at character
      omega
    obtain ⟨least, greatest, lead, second⟩ := lead_three (by omega) three noSurrogate
    have third : 0x80 ≤ 0x80 + c % 64 ∧ 0x80 + c % 64 ≤ 0xBF := by omega
    have same :
        (c / 4096 * 64 + (0x80 + c / 64 % 64 - 0x80)) * 64 + (0x80 + c % 64 - 0x80) = c := by
      omega
    have run := (decodeFrom_lead position done ([0x80 + c / 64 % 64, 0x80 + c % 64] ++ rest)
      lead nofun).trans
      ((decodeFrom_more 0 second).trans (decodeFrom_last third))
    rwa [same] at run
  split at encoded
  · next high _ four =>
    obtain rfl := Option.some.inj encoded
    obtain ⟨least, greatest, lead, second⟩ := lead_four (by omega) four
    have third : 0x80 ≤ 0x80 + c / 64 % 64 ∧ 0x80 + c / 64 % 64 ≤ 0xBF := by omega
    have fourth : 0x80 ≤ 0x80 + c % 64 ∧ 0x80 + c % 64 ≤ 0xBF := by omega
    have same : ((c / 262144 * 64 + (0x80 + c / 4096 % 64 - 0x80)) * 64 +
        (0x80 + c / 64 % 64 - 0x80)) * 64 + (0x80 + c % 64 - 0x80) = c := by omega
    have run := (decodeFrom_lead position done
      ([0x80 + c / 4096 % 64, 0x80 + c / 64 % 64, 0x80 + c % 64] ++ rest) lead nofun).trans
      ((decodeFrom_more 1 second).trans ((decodeFrom_more 0 third).trans (decodeFrom_last fourth)))
    rwa [same] at run
  · cases encoded

/-- A character has octets. -/
theorem exists_ofCodePoint {c : CodePoint} (character : IsCharacter c) :
    ∃ octets, ofCodePoint? c = some octets := by
  obtain ⟨noSurrogate, last⟩ := character
  rw [ofCodePoint?, noSurrogate, if_pos last, if_neg Bool.false_ne_true]
  split
  · exact ⟨_, rfl⟩
  · split
    · exact ⟨_, rfl⟩
    · split
      · exact ⟨_, rfl⟩
      · exact ⟨_, rfl⟩

theorem decodeFrom_encode {t : Text} {octets : Octets} (encoded : encode? t = some octets)
    (position : Nat) (done : Text) :
    decodeFrom position .between done octets = .ok (done.reverse ++ t) := by
  induction t generalizing position done octets with
  | nil =>
    obtain rfl := Option.some.inj encoded
    rw [List.append_nil]
    rfl
  | cons c t ih =>
    simp only [encode?, Option.bind_eq_bind, Option.bind_eq_some_iff] at encoded
    obtain ⟨first, first_eq, more, more_eq, same⟩ := encoded
    obtain rfl := Option.some.inj same
    rw [decodeFrom_ofCodePoint first_eq, ih more_eq]
    simp

/-- The octets of a text are read as the text. -/
theorem decode_encode {t : Text} {octets : Octets} (encoded : encode? t = some octets) :
    decode octets = .ok t :=
  decodeFrom_encode encoded 0 []

/-- A text of characters has octets. -/
theorem exists_encode {t : Text} (characters : ∀ c ∈ t, IsCharacter c) :
    ∃ octets, encode? t = some octets := by
  induction t with
  | nil => exact ⟨[], rfl⟩
  | cons c t ih =>
    obtain ⟨first, first_eq⟩ := exists_ofCodePoint (characters c List.mem_cons_self)
    obtain ⟨more, more_eq⟩ := ih fun d member => characters d (List.mem_cons_of_mem c member)
    exact ⟨first ++ more, by simp [encode?, first_eq, more_eq]⟩

theorem isCharacter_of_ofCodePoint {c : Nat} {octets : Octets}
    (encoded : ofCodePoint? c = some octets) : IsCharacter c := by
  unfold ofCodePoint? at encoded
  split at encoded
  · next one => exact isCharacter_of_lt (Nat.lt_trans one (by decide))
  split at encoded
  · next two => exact isCharacter_of_lt (Nat.lt_trans two (by decide))
  split at encoded
  · cases encoded
  next character =>
    rw [Bool.not_eq_true] at character
    split at encoded
    · next three => exact ⟨character, Nat.lt_trans three (by decide)⟩
    split at encoded
    · next four => exact ⟨character, four⟩
    · cases encoded

/-- A text has octets if and only if it consists of characters. -/
theorem exists_encode_iff {t : Text} :
    (∃ octets, encode? t = some octets) ↔ ∀ c ∈ t, IsCharacter c := by
  refine ⟨fun encodes => ?_, exists_encode⟩
  induction t with
  | nil => exact List.forall_mem_nil _
  | cons c t ih =>
    obtain ⟨octets, encoded⟩ := encodes
    simp only [encode?, Option.bind_eq_bind, Option.bind_eq_some_iff] at encoded
    obtain ⟨first, first_eq, more, more_eq, -⟩ := encoded
    exact List.forall_mem_cons.mpr ⟨isCharacter_of_ofCodePoint first_eq, ih ⟨more, more_eq⟩⟩

end SwaggerDoc.Octets
