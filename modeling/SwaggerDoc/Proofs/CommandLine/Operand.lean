import SwaggerDoc.Proofs.CommandLine.Strict

/-!
Commands with one argument.

A command that is given nothing but one argument succeeds only if this names a file, or asks for
help. What is no option to one command is none to another, so that a file that one command takes is
taken by the other too.
-/

namespace SwaggerDoc.CommandLine

namespace Arguments

variable {known : List Switch} {argument : Text} {given : List Given}

/-- Options that are written by letters have letters. -/
theorem letter?_of_readLetters {letters : Text} {reading : Reading}
    (reads : readLetters known letters = .ok reading) :
    (∃ given, reading = .options given ∧ ∀ g ∈ given, g.switch.letter?.isSome) ∨
      ∃ given s name, reading = .awaits given s name := by
  induction letters generalizing reading with
  | nil => exact .inl ⟨[], (Except.ok.inj reads).symm, List.forall_mem_nil _⟩
  | cons letter rest ih =>
    rw [readLetters] at reads
    split at reads
    · cases reads
    · next s found =>
      have lettered : s.letter?.isSome := by
        have same := List.find?_some found
        rw [beq_iff_eq.mp same]
        rfl
      split at reads
      · split at reads
        · exact .inr ⟨_, _, _, (Except.ok.inj reads).symm⟩
        · exact .inl ⟨_, (Except.ok.inj reads).symm, List.forall_mem_singleton.mpr lettered⟩
      · obtain ⟨later, others, reads⟩ := Except.exists_ok_of_bind reads
        rcases ih others with ⟨more, rfl, all⟩ | ⟨more, t, name, rfl⟩
        · exact .inl ⟨_, (Except.ok.inj reads).symm, List.forall_mem_cons.mpr ⟨lettered, all⟩⟩
        · exact .inr ⟨_, _, _, (Except.ok.inj reads).symm⟩

/-- An option that is written by its name is complete, or awaits its value. -/
theorem of_readName {reading : Reading} (reads : readName known argument = .ok reading) :
    (∃ s value, reading = .options [⟨s, value⟩] ∧ (s.takesValue = false → s.long = argument)) ∨
      ∃ s name, reading = .awaits [] s name := by
  unfold readName at reads
  dsimp only at reads
  split at reads
  · cases reads
  · next s found =>
    have named : s.long = argument.takeWhile (· != 61) := by simpa using List.find?_some found
    split at reads
    · next value takes _ =>
      obtain rfl := Except.ok.inj reads
      exact .inl ⟨s, value, rfl, fun takesNone => by rw [takes] at takesNone; cases takesNone⟩
    · exact .inr ⟨_, _, (Except.ok.inj reads).symm⟩
    · cases reads
    · next none =>
      obtain rfl := Except.ok.inj reads
      refine .inl ⟨s, [], rfl, fun _ => ?_⟩
      have noEquals : argument.contains 61 = false := by
        cases equals : argument.contains 61 with
        | true =>
          rw [equals] at none
          cases none
        | false => rfl
      rw [named, List.takeWhile_eq_self_iff]
      intro c member
      refine bne_iff_ne.mpr fun same => ?_
      rw [same] at member
      rw [List.contains_iff_mem.mpr member] at noEquals
      cases noEquals

/-- An argument that is no option to one command is none to another. -/
theorem read_other {known' : List Switch} (reads : read known argument = .ok .other) :
    read known' argument = .ok .other := by
  unfold read at reads ⊢
  split at reads
  · cases reads
  · rcases of_readName reads with ⟨_, _, same, -⟩ | ⟨_, _, same⟩
    · cases same
    · cases same
  · rfl
  · rcases letter?_of_readLetters reads with ⟨_, same, -⟩ | ⟨_, _, _, same⟩
    · cases same
    · cases same
  · rfl

/-- Help is asked for by its name only. -/
theorem eq_help_of_read (reads : read known argument = .ok (.options given))
    (help : ∃ g ∈ given, g.switch = .help) : argument = text "--help" := by
  obtain ⟨g, member, asked⟩ := help
  unfold read at reads
  split at reads
  · cases reads
  · rcases of_readName reads with ⟨s, value, same, named⟩ | ⟨_, _, same⟩
    · obtain rfl := Reading.options.inj same
      obtain rfl := List.mem_singleton.mp member
      obtain rfl : s = .help := asked
      exact (named rfl).symm
    · cases same
  · cases reads
  · rcases letter?_of_readLetters reads with ⟨_, same, lettered⟩ | ⟨_, _, _, same⟩
    · obtain rfl := Reading.options.inj same
      have none := lettered g member
      rw [asked] at none
      cases none
    · cases same
  · cases reads

end Arguments

section Runs

variable {setting : Setting} {c : Command} {name : Text}

/-- Without a file no call fits. -/
theorem exists_refusal_of_nil (setting : Setting) (c : Command) (given : List Given) :
    ∃ r, callOf setting c ⟨given, []⟩ = .error r := by
  simp only [callOf]
  cases List.forM (given.map Given.switch) (checkSwitch setting ⟨given, []⟩) with
  | error r => exact ⟨r, rfl⟩
  | ok _ => exact ⟨.misuse .missingFile, rfl⟩

/-- What is not a call is not carried out, and that is no success. -/
theorem not_success_of_refusal {a : Arguments} {arguments : List Text} {r : Refusal}
    (parsed : Arguments.parse (Switch.ofCommand c) true arguments = .ok a)
    (plain : a.has .help = false) (refused : callOf setting c a = .error r) :
    (runCommand setting false c arguments).ending.status ≠ 0 := by
  rw [runCommand, parsed]
  simp only [plain, refused]
  cases r with
  | misuse e => exact Nat.succ_ne_zero _
  | fault f => exact Nat.succ_ne_zero _

/-- A command that succeeds with one argument has shown help, or carried out a call for the file. -/
theorem exists_call_of_success (success : (runCommand setting false c [name]).ending.status = 0) :
    name = text "--help" ∨ ∃ call,
      Arguments.read (Switch.ofCommand c) name = .ok .other ∧
        callOf setting c ⟨[], [name]⟩ = .ok call ∧
        runCommand setting false c [name] = carryOut setting false call := by
  cases reads : Arguments.read (Switch.ofCommand c) name with
  | error e =>
    have parsed : Arguments.parse (Switch.ofCommand c) true [name] = .error e := by
      simp only [Arguments.parse, reads]
      rfl
    rw [runCommand, parsed] at success
    cases success
  | ok reading =>
    cases reading with
    | awaits given s missing =>
      have parsed : Arguments.parse (Switch.ofCommand c) true [name] =
          .error (.needsValue missing) := by
        simp only [Arguments.parse, reads]
        rfl
      rw [runCommand, parsed] at success
      cases success
    | last =>
      have parsed : Arguments.parse (Switch.ofCommand c) true [name] = .ok ⟨[], []⟩ := by
        simp only [Arguments.parse, reads]
        rfl
      obtain ⟨r, refused⟩ := exists_refusal_of_nil setting c []
      exact absurd success (not_success_of_refusal parsed rfl refused)
    | options given =>
      have parsed : Arguments.parse (Switch.ofCommand c) true [name] = .ok ⟨given, []⟩ := by
        simp only [Arguments.parse, reads]
        simp [Arguments.withOptions, bind, Except.bind, pure, Except.pure]
      cases help : Arguments.has ⟨given, []⟩ .help with
      | true =>
        obtain ⟨g, member, asked⟩ := List.any_eq_true.mp help
        exact .inl (Arguments.eq_help_of_read reads ⟨g, member, beq_iff_eq.mp asked⟩)
      | false =>
        obtain ⟨r, refused⟩ := exists_refusal_of_nil setting c given
        exact absurd success (not_success_of_refusal parsed help refused)
    | other =>
      right
      have parsed : Arguments.parse (Switch.ofCommand c) true [name] = .ok ⟨[], [name]⟩ := by
        simp only [Arguments.parse, reads]
        rfl
      cases fits : callOf setting c ⟨[], [name]⟩ with
      | error r => exact absurd success (not_success_of_refusal parsed rfl fits)
      | ok call =>
        refine ⟨call, rfl, rfl, ?_⟩
        rw [runCommand, parsed]
        simp only [fits]
        rfl

/-- What a call for one file asks for. -/
structure IsForFile (setting : Setting) (c : Command) (name : Text) (call : Call) : Prop where
  readable : checkFile setting ⟨[], [name]⟩ = .ok ()
  command : call.command = c
  file : call.file = Path.of name
  output : call.output = none
  methods : call.methods = none
  strict : call.strict = false

theorem isForFile_of_callOf {call : Call} (fits : callOf setting c ⟨[], [name]⟩ = .ok call) :
    IsForFile setting c name call := by
  obtain ⟨_, -, fits⟩ := Except.exists_ok_of_bind fits
  obtain ⟨_, readable, fits⟩ := Except.exists_ok_of_bind fits
  obtain ⟨_, -, fits⟩ := Except.exists_ok_of_bind fits
  obtain rfl := Except.ok.inj fits
  exact ⟨readable, rfl, rfl, rfl, rfl, rfl⟩

/-- A file that can be read can be checked. -/
theorem runCommand_check (reads : Arguments.read (Switch.ofCommand .check) name = .ok .other)
    (readable : checkFile setting ⟨[], [name]⟩ = .ok ()) :
    ∃ call, IsForFile setting .check name call ∧
      runCommand setting false .check [name] = carryOut setting false call := by
  have parsed : Arguments.parse (Switch.ofCommand .check) true [name] = .ok ⟨[], [name]⟩ := by
    simp only [Arguments.parse, reads]
    rfl
  have fits : callOf setting .check ⟨[], [name]⟩ = .ok
      ⟨.check, Path.of name, none, (Format.ofName? (formatName setting ⟨[], [name]⟩)).getD .yaml,
        none, false⟩ := by
    rw [callOf]
    simp only [readable]
    rfl
  refine ⟨_, isForFile_of_callOf fits, ?_⟩
  rw [runCommand, parsed]
  simp only [fits]
  rfl

/-- Checking without a log: the numbers are written that say what the document holds. -/
theorem carryOut_check (setting : Setting) (call : Call) (command : call.command = .check) :
    carryOut setting false call =
      match compileAt setting call.file none ⟨some [], []⟩ with
      | (.error f, _) => failed setting.files [] f
      | (.ok c, journal) =>
        writeOutput setting.files ((journal.kept.getD []).flatMap fallbackLine)
          (summary c.document (journal.kept.getD []).length) := by
  unfold carryOut
  simp only [command]
  rcases compileAt setting call.file none ⟨some [], []⟩ with ⟨_ | c, journal⟩
  · rfl
  · rfl

theorem failed_status (files : FileTree) (messages : Text) (f : Fault) :
    (failed files messages f).ending.status = 1 := by
  unfold failed
  split <;> rfl

end Runs

end SwaggerDoc.CommandLine
