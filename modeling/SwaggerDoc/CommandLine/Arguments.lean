import SwaggerDoc.CommandLine.Usage

/-!
The arguments of a call, taken apart into options and the rest.

An option is written by its name, with a value behind an equals sign or as the next argument, or by
its letter, with a value right behind it or as the next argument; letters of options without a value
can stand together. Behind two hyphens there are no options. Options and other arguments can be
mixed, except in front of a command, where the first other argument is the command.
-/

namespace SwaggerDoc.CommandLine

/-- An option as it was given. -/
structure Given where
  switch : Switch
  value : Text
  deriving DecidableEq, Repr

/-- The options given, in order, and all other arguments, in order. -/
structure Arguments where
  options : List Given
  rest : List Text
  deriving DecidableEq, Repr

namespace Arguments

/-- What an argument comes to. -/
inductive Reading where
  /-- Some options that are complete. -/
  | options (given : List Given)
  /-- Some options that are complete, and one whose value is the next argument. -/
  | awaits (given : List Given) (switch : Switch) (name : Text)
  /-- Two hyphens. -/
  | last
  /-- No option. -/
  | other
  deriving Repr

/-- Options written by their letters. -/
def readLetters (known : List Switch) : Text → Except UsageError Reading
  | [] => .ok (.options [])
  | letter :: rest =>
    match known.find? fun s => s.letter? == some letter with
    | none => .error (.noSuchOption [45, letter] [])
    | some s =>
      if s.takesValue then
        .ok (if rest.isEmpty then .awaits [] s [45, letter] else .options [⟨s, rest⟩])
      else do
        match ← readLetters known rest with
        | .options given => return .options (⟨s, []⟩ :: given)
        | .awaits given t name => return .awaits (⟨s, []⟩ :: given) t name
        | reading => return reading

/-- An option written by its name. -/
def readName (known : List Switch) (argument : Text) : Except UsageError Reading :=
  let name := argument.takeWhile (· != 61)
  let value? := if argument.contains 61 then some (argument.drop (name.length + 1)) else none
  match known.find? fun s => s.long == name with
  | none => .error (.noSuchOption name (similar (known.map Switch.long) name))
  | some s =>
    match s.takesValue, value? with
    | true, some value => .ok (.options [⟨s, value⟩])
    | true, none => .ok (.awaits [] s name)
    | false, some _ => .error (.takesNoValue name)
    | false, none => .ok (.options [⟨s, []⟩])

/-- What an argument comes to. -/
def read (known : List Switch) (argument : Text) : Except UsageError Reading :=
  match argument with
  | [45, 45] => .ok .last
  | 45 :: 45 :: _ => readName known argument
  | [45] => .ok .other
  | 45 :: letters => readLetters known letters
  | _ => .ok .other

/-- Options in front of what is found later. -/
def withOptions (given : List Given) (a : Arguments) : Arguments :=
  { a with options := given ++ a.options }

/-- Takes arguments apart. `mixed` says that options can follow other arguments. -/
def parse (known : List Switch) (mixed : Bool) : List Text → Except UsageError Arguments
  | [] => .ok ⟨[], []⟩
  | argument :: rest => do
    match ← read known argument with
    | .options given => return (← parse known mixed rest).withOptions given
    | .last => return ⟨[], rest⟩
    | .awaits given s name =>
      match rest with
      | [] => throw (.needsValue name)
      | value :: rest => return (← parse known mixed rest).withOptions (given ++ [⟨s, value⟩])
    | .other =>
      if mixed then
        let a ← parse known mixed rest
        return { a with rest := argument :: a.rest }
      else return ⟨[], argument :: rest⟩

/-- Whether an option was given. -/
def has (a : Arguments) (s : Switch) : Bool := a.options.any (·.switch == s)

/-- The value of an option; of several the last counts. -/
def value? (a : Arguments) (s : Switch) : Option Text :=
  ((a.options.filter (·.switch == s)).getLast?).map Given.value

end Arguments

end SwaggerDoc.CommandLine
