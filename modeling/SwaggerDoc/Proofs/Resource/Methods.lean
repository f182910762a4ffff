import SwaggerDoc.Proofs.Text.Words
import SwaggerDoc.Resource

/-!
Method lists written as texts.

The grammar of such lists, `WritesMethods`, is that of segments with commas between, each of which
is blank or holds one name between blanks, in any letter case. Reading accepts a text exactly if it
is written so, and gives the methods it writes, in their order and as often as they are named
(`methods_are_read_as_written`).
-/

namespace SwaggerDoc

theorem Method.ofName?_eq_some_iff {t : Text} {m : Method} :
    Method.ofName? t = some m ↔ t = m.name := by
  constructor
  · intro found
    have same := List.find?_some found
    exact (beq_iff_eq.mp same).symm
  · rintro rfl
    cases m <;> rfl

/-- The names of methods have small letters of the basic alphabet, and no k. -/
theorem Method.letters_name (m : Method) : ∀ d ∈ m.name, 97 ≤ d ∧ d ≤ 122 ∧ d ≠ 107 := by
  cases m <;> decide

theorem Text.IsCasingOf.letter {word : Text} {m : Method} (cased : word.IsCasingOf m.name)
    {c : Nat} (member : c ∈ word) : Text.isBlank c = false ∧ c ≠ 44 := by
  have table : ∀ c < 123, 65 ≤ c → Text.isBlank c = false ∧ c ≠ 44 := by decide
  have letters : ∀ d ∈ m.name, 97 ≤ d ∧ d ≤ 122 := fun d listed =>
    ⟨(m.letters_name d listed).1, (m.letters_name d listed).2.1⟩
  obtain ⟨least, greatest⟩ := cased.letters letters c member
  exact table c (Nat.lt_succ_of_le greatest) least

theorem Text.IsCasingOf.ne_nil {word : Text} {m : Method} (cased : word.IsCasingOf m.name) :
    word ≠ [] := by
  rintro rfl
  cases m <;> cases cased

namespace Resource

/-! ## What a text writes -/

/-- A text without a comma that writes no method, because it is blank, or one method: its name in
any letter case between blanks. -/
inductive WritesSegment : Text → List Method → Prop
  | blank {t : Text} : (∀ c ∈ t, Text.isBlank c = true) → WritesSegment t []
  | name {front word behind : Text} {m : Method} :
    (∀ c ∈ front, Text.isBlank c = true) → word.IsCasingOf m.name →
    (∀ c ∈ behind, Text.isBlank c = true) → WritesSegment (front ++ word ++ behind) [m]

/-- A text that writes a list of methods: segments with commas between that write its parts. -/
inductive WritesMethods : Text → List Method → Prop
  | last {t : Text} {ms : List Method} : WritesSegment t ms → WritesMethods t ms
  | comma {t rest : Text} {ms later : List Method} :
    WritesSegment t ms → WritesMethods rest later → WritesMethods (t ++ 44 :: rest) (ms ++ later)

theorem WritesSegment.no_comma {t : Text} {ms : List Method} (writes : WritesSegment t ms) :
    44 ∉ t := by
  have blankless {u : Text} (blank : ∀ c ∈ u, Text.isBlank c = true) : 44 ∉ u := fun member =>
    absurd (blank 44 member) (by decide)
  cases writes with
  | blank blank => exact blankless blank
  | name front cased behind =>
    simp only [List.mem_append, not_or]
    exact ⟨⟨blankless front, fun member => (cased.letter member).2 rfl⟩, blankless behind⟩

/-! ## What is read -/

/-- The methods that the names in a text name, if all of them do. -/
def readMethods? (t : Text) : Option (List Method) := (methodNames t).mapM Method.ofName?

theorem methodNames_append (t rest : Text) :
    methodNames (t ++ 44 :: rest) = methodNames t ++ methodNames rest := by
  simp only [methodNames, Text.split_append_separator, List.map_append, List.filter_append]

/-- A text up to a comma and the text behind it are read one after the other. -/
theorem readMethods?_append (t rest : Text) :
    readMethods? (t ++ 44 :: rest) = (do
      let ms ← readMethods? t
      let later ← readMethods? rest
      return ms ++ later) := by
  rw [readMethods?, methodNames_append, List.mapM_append]
  rfl

/-- A text without a comma has one name in it, unless it is blank. -/
theorem methodNames_of_no_comma {t : Text} (one : 44 ∉ t) :
    methodNames t =
      if t.trim Text.isBlank = [] then [] else [(t.trim Text.isBlank).lowerCase] := by
  rw [methodNames, Text.split_of_not_mem one]
  split
  · next blank => simp [blank]
  · next named => simp [named]

/-- A text without a comma is read exactly if it writes what is read. -/
theorem readMethods?_segment {t : Text} (one : 44 ∉ t) {ms : List Method} :
    readMethods? t = some ms ↔ WritesSegment t ms := by
  rw [readMethods?, methodNames_of_no_comma one]
  constructor
  · intro read
    split at read
    · next blank =>
      obtain rfl := Option.some.inj read
      exact .blank (Text.trim_eq_nil_iff.mp blank)
    · obtain ⟨front, behind, parts, blankFront, blankBehind⟩ := Text.exists_trim Text.isBlank t
      obtain ⟨m, named, rfl⟩ : ∃ m, Method.ofName? (t.trim Text.isBlank).lowerCase = some m ∧
          [m] = ms := by
        simpa [Option.bind_eq_some_iff] using read
      rw [parts]
      have lowered := Method.ofName?_eq_some_iff.mp named
      exact .name blankFront ((Text.lowerCase_eq_iff m.letters_name).mp lowered) blankBehind
  · intro writes
    cases writes with
    | blank blank =>
      rw [if_pos (Text.trim_eq_nil_iff.mpr blank)]
      rfl
    | @name front word behind m blankFront cased blankBehind =>
      have kept : ∀ c ∈ word, Text.isBlank c = false := fun c member => (cased.letter member).1
      have named : Method.ofName? word.lowerCase = some m :=
        Method.ofName?_eq_some_iff.mpr ((Text.lowerCase_eq_iff m.letters_name).mpr cased)
      have solid : word ≠ [] := cased.ne_nil
      rw [Text.trim_between blankFront kept blankBehind, if_neg solid]
      simp [named]

/-- A text is read exactly if it writes what is read. -/
theorem readMethods?_eq_some_iff {t : Text} {ms : List Method} :
    readMethods? t = some ms ↔ WritesMethods t ms := by
  constructor
  · intro read
    -- The induction is on the length: what is behind the first comma is shorter.
    induction length : t.length using Nat.strong_induction_on generalizing t ms with
    | _ n ih =>
      by_cases comma : 44 ∈ t
      · obtain ⟨front, rest, rfl, one⟩ := List.eq_append_cons_of_mem comma
        rw [readMethods?_append] at read
        obtain ⟨ms, segment, read⟩ := Option.bind_eq_some_iff.mp read
        obtain ⟨later, others, same⟩ := Option.bind_eq_some_iff.mp read
        obtain rfl := Option.some.inj same
        have shorter : rest.length < n := by
          rw [← length, List.length_append, List.length_cons]
          omega
        exact .comma ((readMethods?_segment one).mp segment) (ih _ shorter others rfl)
      · exact .last ((readMethods?_segment comma).mp read)
  · intro writes
    induction writes with
    | last writes => exact (readMethods?_segment writes.no_comma).mpr writes
    | comma writes _ later =>
      rw [readMethods?_append, (readMethods?_segment writes.no_comma).mpr writes, later]
      rfl

theorem methodsOf_eq (t : Text) :
    methodsOf t = match readMethods? t with
      | some ms => .ok ms
      | none => .error (.file (text "Unknown method in " ++ Text.quoted t) none) :=
  rfl

theorem writesMethods_join (ms : List Method) :
    WritesMethods (Text.join (text ",") (ms.map Method.name)) ms := by
  have nothing : ∀ c ∈ ([] : Text), Text.isBlank c = true := List.forall_mem_nil _
  have segment (m : Method) : WritesSegment m.name [m] := by
    simpa using WritesSegment.name nothing (Text.isCasingOf_refl m.name) nothing
  induction ms with
  | nil => exact .last (.blank nothing)
  | cons m ms later =>
    cases ms with
    | nil => exact .last (segment m)
    | cons m' ms =>
      have joined : Text.join (text ",") ((m :: m' :: ms).map Method.name) =
          m.name ++ 44 :: Text.join (text ",") ((m' :: ms).map Method.name) := by
        simp [Text.join, text]
      rw [joined]
      exact .comma (segment m) later

/-- A text is read as a list of methods exactly if it writes that list, every other text is refused
with a message that shows it, and the names of methods with commas between are read as they
stand. -/
theorem methods_are_read_as_written :
    (∀ t ms, methodsOf t = .ok ms ↔ WritesMethods t ms) ∧
      (∀ t, methodsOf t = .error (.file (text "Unknown method in " ++ Text.quoted t) none) ↔
        ¬ ∃ ms, WritesMethods t ms) ∧
      ∀ ms, methodsOf (Text.join (text ",") (ms.map Method.name)) = .ok ms := by
  have accepts (t : Text) (ms : List Method) : methodsOf t = .ok ms ↔ WritesMethods t ms := by
    rw [← readMethods?_eq_some_iff, methodsOf_eq]
    cases readMethods? t <;> simp
  refine ⟨accepts, fun t => ?_, fun ms => (accepts _ ms).mpr (writesMethods_join ms)⟩
  simp only [← readMethods?_eq_some_iff, methodsOf_eq]
  cases readMethods? t <;> simp

/-- Blanks and blank segments do not count, and neither does the case of letters. -/
example : methodsOf (text " GET,, Put\t,get") = .ok [.get, .put, .get] := by
  rfl

end Resource

end SwaggerDoc
