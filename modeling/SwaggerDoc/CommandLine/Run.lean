import SwaggerDoc.CommandLine.Arguments
import SwaggerDoc.CommandLine.Terminal
import SwaggerDoc.Document.Compile
import SwaggerDoc.ResourceFile

/-!
Runs of the program.

A run is a function of the arguments, the files and the setting of the environment. A call is
checked before anything is read. Then the resource file is read and compiled, fallbacks are
reported, and the document is written to the output or into a file; only then something is written.
What a run says is said without control sequences, the lines of the log apart.
-/

namespace SwaggerDoc.CommandLine

/-- How a run ends. -/
inductive Ending where
  | success
  /-- The call does not fit the commands. -/
  | misuse (e : UsageError)
  /-- The resource file or the document is at fault, as the report says. -/
  | reported (f : Fault)
  /-- Fields fell back although that was forbidden. -/
  | strict
  /-- Something else went wrong. -/
  | uncaught (f : Fault)
  deriving Repr

/-- What a run leaves behind. -/
structure Outcome where
  ending : Ending
  output : Text
  messages : Text
  files : FileTree

namespace Ending

/-- The number that a run ends with. -/
def status : Ending → Nat
  | .success => 0
  | .misuse _ => 2
  | _ => 1

end Ending

/-- What a run starts from. -/
structure Setting where
  files : FileTree
  /-- The name of the format to use if none is asked for. -/
  format : Option Text
  /-- The order in which the members of sets are gone through. -/
  [order : SetOrder]

/-- The store that a run starts with. -/
def Setting.store (setting : Setting) : Store := { Store.empty with order := setting.order }

/-! ## Calls -/

/-- A call that fits the commands. -/
structure Call where
  command : Command
  file : Path
  output : Option Path
  format : Format
  methods : Option Text
  strict : Bool

/-- The name of the format that a call asks for. An empty setting is none. -/
def formatName (setting : Setting) (a : Arguments) : Text :=
  ((a.value? .format).or (setting.format.filter (!·.isEmpty))).getD Format.yaml.name

/-- Why a call is not carried out. -/
inductive Refusal where
  /-- It does not fit the commands. -/
  | misuse (e : UsageError)
  /-- Something went wrong while it was checked. -/
  | fault (f : Fault)

/-- What a name in a call leads to. -/
def lookUp (setting : Setting) (name : Text) : Except Refusal (Option FileEntry) :=
  (setting.files.lookUp name).mapError .fault

/-- Checks what was given for an option, or what holds if it was not given. -/
def checkSwitch (setting : Setting) (a : Arguments) (s : Switch) : Except Refusal Unit :=
  match s with
  | .output =>
    match a.value? .output with
    | some name => do
      if (← lookUp setting name) = some .directory then
        throw (.misuse (.writesDirectory name))
    | none => .ok ()
  | .format =>
    let name := formatName setting a
    if (Format.ofName? name).isSome then .ok () else .error (.misuse (.noSuchFormat name))
  | _ => .ok ()

/-- Checks the file to read. -/
def checkFile (setting : Setting) (a : Arguments) : Except Refusal Unit :=
  match a.rest with
  | [] => .error (.misuse .missingFile)
  | name :: _ => do
    match ← lookUp setting name with
    | none => throw (.misuse (.notFound name))
    | some .directory => throw (.misuse (.readsDirectory name))
    | some (.file _) => return ()

/-- A call from the arguments behind the command. What was given is checked in its order, then the
file, then what was not given. -/
def callOf (setting : Setting) (c : Command) (a : Arguments) : Except Refusal Call := do
  let switches := (Switch.ofCommand c).filter fun s => !a.has s
  (a.options.map Given.switch).forM (checkSwitch setting a)
  checkFile setting a
  switches.forM (checkSwitch setting a)
  match a.rest with
  | [name] =>
    return {
      command := c
      file := Path.of name
      output := (a.value? .output).map Path.of
      format := (Format.ofName? (formatName setting a)).getD .yaml
      methods := a.value? .methods
      strict := a.has .strict }
  | rest => throw (.misuse (.unexpected (rest.drop 1)))

/-! ## Compiling -/

/-- A compiled resource file. -/
structure Compiled where
  document : Document
  store : Store

/-- Reads and compiles a resource file, with other methods than its own if some are given. -/
def compileAt (setting : Setting) (path : Path) (methods : Option Text) : Report Compiled := do
  let (file, s) ← .ofExcept (ResourceFile.load setting.store setting.files path)
  let (resource, s) ← match methods with
    | none => pure (file.place, s)
    | some t => do
      let methods ← .ofExcept (Resource.methodsOf t)
      pure (Resource.place s { file.resource with methods })
  let document ← s.compile resource file.schema file.definition
  return ⟨document, s⟩

/-- The line about a fallback among the reports of a run. -/
def fallbackLine (f : Fallback) : Text :=
  withoutSequences (text "Warning: " ++ f.definition ++ text "." ++ f.field ++ text " (" ++ f.tag
    ++ text ") is not supported, using \"string\"\n")

/-- The line about a warning in the log. -/
def logLine (warning : Text) : Text :=
  text "WARNING swagger_compiler.compiler.normalizer: " ++ warning ++ [10]

/-- The line about an error. -/
def errorLine (message : Text) : Text := withoutSequences (text "Error: " ++ message ++ [10])

/-- Messages can show any character: the half of a surrogate pair is shown by its number. -/
def printable (t : Text) : Text :=
  t.flatMap fun c => if Text.isSurrogate c then text "\\u" ++ Text.hex 4 c else [c]

/-- A run that ends with a fault: an expected one is reported, any other is not caught. -/
def failed (files : FileTree) (messages : Text) (f : Fault) : Outcome :=
  match f.report? with
  | some message => ⟨.reported f, [], messages ++ errorLine message, files⟩
  | none => ⟨.uncaught f, [], messages, files⟩

/-- The line about a document in a file. -/
def savedLine (path : Path) : Text :=
  withoutSequences (text "Document saved to " ++ path.shown ++ [10])

/-- Writes a text into a file, whose directory is made if it does not exist. A text that no file
can hold leaves the file empty. -/
def writeFile (files : FileTree) (messages : Text) (path : Path) (t : Text) : Outcome :=
  match files.withDirectories path.parent with
  | (made, some f) => ⟨.uncaught f, [], messages, made⟩
  | (made, none) =>
    match made.write path ((Octets.encode? t).getD []) with
    | .error f => ⟨.uncaught f, [], messages, made⟩
    | .ok written =>
      if (Octets.encode? t).isSome then
        ⟨.success, [], messages ++ savedLine path, written⟩
      else ⟨.uncaught .notEncodable, [], messages, written⟩

/-- Writes a text to the output. -/
def writeOutput (files : FileTree) (messages t : Text) : Outcome :=
  let shown := withoutSequences t
  if (Octets.encode? shown).isSome then ⟨.success, shown, messages, files⟩
  else ⟨.uncaught .notEncodable, [], messages, files⟩

/-- Writes the document. -/
def deliver (files : FileTree) (call : Call) (messages : Text) (c : Compiled) : Outcome :=
  let (v, s) := c.document.shape.place c.store
  match s.render v call.format with
  | .error f => ⟨.uncaught f, [], messages, files⟩
  | .ok t =>
    match call.output with
    | none => writeOutput files messages t
    | some path => writeFile files messages path t

/-- What a document holds, in numbers. -/
def summary (d : Document) (fallbacks : Nat) : Text :=
  Text.ofNat d.definitionCount ++ text " definitions, " ++ Text.ofNat d.paths.length
    ++ text " paths, " ++ Text.ofNat d.operationCount ++ text " operations, "
    ++ Text.ofNat fallbacks ++ text " warnings.\n"

/-- Carries out a call. -/
def carryOut (setting : Setting) (verbose : Bool) (call : Call) : Outcome :=
  let files := setting.files
  let methods := match call.command with
    | .compile => call.methods
    | .check => none
  let (result, journal) := compileAt setting call.file methods ⟨some [], []⟩
  let log := if verbose then journal.log.flatMap logLine else []
  let fallbacks := journal.kept.getD []
  match result with
  | .error f => failed files log f
  | .ok compiled =>
    let messages := log ++ fallbacks.flatMap fallbackLine
    let count := fallbacks.length
    match call.command with
    | .check => writeOutput files messages (summary compiled.document count)
    | .compile =>
      if call.strict && count != 0 then
        let line := errorLine (Text.ofNat count ++ text " field(s) fell back to string")
        ⟨.strict, [], messages ++ line, files⟩
      else deliver files call messages compiled

/-- A run that only shows help. -/
def showHelp (files : FileTree) (c : Option Command) : Outcome := ⟨.success, help c, [], files⟩

/-- A run that ends because the call does not fit. -/
def misused (files : FileTree) (c : Option Command) (e : UsageError) : Outcome :=
  ⟨.misuse e, [], withoutSequences (usageReport c e), files⟩

/-- Runs a command with the arguments behind it. -/
def runCommand (setting : Setting) (verbose : Bool) (c : Command) (arguments : List Text) :
    Outcome :=
  match Arguments.parse (Switch.ofCommand c) true arguments with
  | .error e => misused setting.files (some c) e
  | .ok a =>
    if a.has .help then showHelp setting.files (some c)
    else match callOf setting c a with
      | .error (.misuse e) => misused setting.files (some c) e
      | .error (.fault f) => ⟨.uncaught f, [], [], setting.files⟩
      | .ok call => carryOut setting verbose call

/-- A run with a name that no command has. What stands in the place of a command although it looks
like an option is taken for an option, so that it can be refused as one or ask for help. -/
def runUnknown (files : FileTree) (name : Text) (rest : List Text) : Outcome :=
  match Arguments.parse Switch.general false (name :: rest) with
  | .error e => misused files none e
  | .ok a =>
    if a.has .help then showHelp files none
    else misused files none (.noSuchCommand name (similar (Command.all.map Command.name) name))

/-- The paths that a run looks at: the file to read and the one to write. -/
def paths (arguments : List Text) : List Path :=
  match Arguments.parse Switch.general false arguments with
  | .error _ => []
  | .ok a =>
    match a.rest with
    | [] => []
    | name :: rest =>
      match (Command.ofName? name).map fun c => Arguments.parse (Switch.ofCommand c) true rest with
      | some (.ok a) => (a.rest.take 1 ++ (a.value? .output).toList).map Path.of
      | _ => []

/-- Runs the program. Without arguments it shows help and counts that as misuse. -/
def runFrom (setting : Setting) (arguments : List Text) : Outcome :=
  if arguments.isEmpty then
    { misused setting.files none .missingCommand with messages := help none }
  else match Arguments.parse Switch.general false arguments with
    | .error e => misused setting.files none e
    | .ok a =>
      if a.has .help then showHelp setting.files none
      else match a.rest with
        | [] => misused setting.files none .missingCommand
        | name :: rest =>
          match Command.ofName? name with
          | none => runUnknown setting.files name rest
          | some c => runCommand setting (a.has .verbose) c rest

/-- Runs the program and makes its messages printable. -/
def run (setting : Setting) (arguments : List Text) : Outcome :=
  let outcome := runFrom setting arguments
  { outcome with messages := printable outcome.messages }

end SwaggerDoc.CommandLine
