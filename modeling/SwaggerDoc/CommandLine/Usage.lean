import SwaggerDoc.CommandLine.Similar
import SwaggerDoc.Render.Document

/-!
The commands and their options, and what is wrong with a call that does not fit them.
-/

namespace SwaggerDoc.CommandLine

/-- The commands. -/
inductive Command where
  /-- Writes the document of a resource file. -/
  | compile
  /-- Counts what the document of a resource file holds. -/
  | check
  deriving DecidableEq, Repr

namespace Command

/-- All commands, in the order in which they are listed. -/
def all : List Command := [.check, .compile]

/-- The name of a command. -/
def name : Command → Text
  | .compile => text "compile"
  | .check => text "check"

/-- The command of a name. -/
def ofName? (t : Text) : Option Command := all.find? fun c => c.name == t

end Command

/-- The options. -/
inductive Switch where
  | verbose | output | format | methods | strict | help
  deriving DecidableEq, Repr

namespace Switch

/-- The name of an option. -/
def long : Switch → Text
  | .verbose => text "--verbose"
  | .output => text "--output"
  | .format => text "--format"
  | .methods => text "--methods"
  | .strict => text "--strict"
  | .help => text "--help"

/-- The letter of an option that has one. -/
def letter? : Switch → Option CodePoint
  | .verbose => some 118
  | .output => some 111
  | _ => none

/-- Whether an option is followed by a value. -/
def takesValue : Switch → Bool
  | .output | .format | .methods => true
  | _ => false

/-- The options in front of a command. -/
def general : List Switch := [.verbose, .help]

/-- The options behind a command. -/
def ofCommand : Command → List Switch
  | .compile => [.output, .format, .methods, .strict, .help]
  | .check => [.help]

end Switch

/-- What is wrong with a call. -/
inductive UsageError where
  /-- No option has that name. -/
  | noSuchOption (name : Text) (similar : List Text)
  | needsValue (name : Text)
  | takesNoValue (name : Text)
  /-- No command has that name. -/
  | noSuchCommand (name : Text) (similar : List Text)
  | missingCommand
  | missingFile
  /-- There is more behind the file. -/
  | unexpected (arguments : List Text)
  /-- The file to read does not exist. -/
  | notFound (path : Text)
  /-- The file to read is a directory. -/
  | readsDirectory (path : Text)
  /-- The file to write is a directory. -/
  | writesDirectory (path : Text)
  | noSuchFormat (name : Text)
  deriving DecidableEq, Repr

namespace UsageError

/-- Names between quotes with commas between. -/
def listed (names : List Text) : Text := Text.join (text ", ") (names.map Text.quoted)

/-- What could have been meant. -/
def suggestion : List Text → Text
  | [] => []
  | [name] => text " Did you mean " ++ Text.quoted name ++ text "?"
  | names => text " (Did you mean one of: " ++ listed names ++ text "?)"

/-- The message about a file. -/
def aboutFile (parameter : String) (path : Text) (problem : String) : Text :=
  text "Invalid value for " ++ text parameter ++ text ": File " ++ Text.quoted path
    ++ text problem

/-- The sentence that says what is wrong. -/
def message : UsageError → Text
  | .noSuchOption name similar =>
    text "No such option " ++ Text.quoted name ++ text "." ++ suggestion similar
  | .needsValue name => text "Option " ++ Text.quoted name ++ text " requires an argument."
  | .takesNoValue name => text "Option " ++ Text.quoted name ++ text " does not take a value."
  | .noSuchCommand name similar =>
    text "No such command " ++ Text.quoted name ++ text "." ++ suggestion similar
  | .missingCommand => text "Missing command."
  | .missingFile => text "Missing argument 'DOC_PATH'."
  | .unexpected arguments =>
    (match arguments with
      | [_] => text "Got unexpected extra argument ("
      | _ => text "Got unexpected extra arguments (")
      ++ Text.join [32] arguments ++ text ")"
  | .notFound path => aboutFile "'DOC_PATH'" path " does not exist."
  | .readsDirectory path => aboutFile "'DOC_PATH'" path " is a directory."
  | .writesDirectory path => aboutFile "'-o' / '--output'" path " is a directory."
  | .noSuchFormat name =>
    text "Invalid value for '--format': " ++ Text.quoted name ++ text " is not one of "
      ++ listed (Format.all.map Format.name) ++ text "."

end UsageError

/-! ## Help -/

/-- The name of the program. -/
def programName : Text := text "swagger-compiler"

/-- The name of the program with that of a command. -/
def callName : Option Command → Text
  | none => programName
  | some c => programName ++ 32 :: c.name

/-- The line that shows how a call looks. -/
def usageLine (c : Option Command) : Text :=
  text "Usage: " ++ callName c
    ++ text (if c.isSome then " [OPTIONS] DOC_PATH\n" else " [OPTIONS] COMMAND [ARGS]...\n")

/-- Whether an error is about the value of a single option. Such an error is reported alone. -/
def UsageError.aboutValue : UsageError → Bool
  | .needsValue _ | .takesNoValue _ => true
  | _ => false

/-- The report of a call that does not fit the commands. -/
def usageReport (c : Option Command) (e : UsageError) : Text :=
  let form :=
    if e.aboutValue then []
    else usageLine c ++ text "Try '" ++ callName c ++ text " --help' for help.\n\n"
  form ++ text "Error: " ++ e.message ++ [10]

/-- What follows the usage line in the help. -/
def helpBody : Option Command → Text
  | none => text "
  swagger-compiler: build Swagger documents from data model schemas.

Options:
  -v, --verbose  Enable debug logging.
  --help         Show this message and exit.

Commands:
  check    Compile a resource file and summarize the result without...
  compile  Compile a resource file into a Swagger document.
"
  | some .compile => text "
  Compile a resource file into a Swagger document.

Options:
  -o, --output FILE     Output file (default: stdout).
  --format [yaml|json]  Output format.
  --methods TEXT        Comma-separated methods overriding the resource file,
                        e.g. index,post,get.
  --strict              Fail when any field falls back to string.
  --help                Show this message and exit.
"
  | some .check => text "
  Compile a resource file and summarize the result without writing it.

Options:
  --help  Show this message and exit.
"

/-- The help on the program or on a command. -/
def help (c : Option Command) : Text := usageLine c ++ helpBody c

end SwaggerDoc.CommandLine
