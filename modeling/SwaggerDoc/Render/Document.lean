import SwaggerDoc.Render.Json
import SwaggerDoc.Yaml.Writer

/-!
The output formats of documents.

Values are written whatever their depth; how deep the writer of an interpreter is sure to go is
`sureDepth`.
-/

namespace SwaggerDoc

/-- A format in which documents are written. -/
inductive Format where
  | yaml | json
  deriving DecidableEq, Repr

namespace Format

/-- All formats, the default one first. -/
def all : List Format := [.yaml, .json]

/-- The name of a format. -/
def name : Format → Text
  | .yaml => text "yaml"
  | .json => text "json"

/-- The format of a name. -/
def ofName? (t : Text) : Option Format := all.find? fun f => f.name == t

end Format

namespace Store

/-- A value written in a format. -/
def render (s : Store) (v : Value) : Format → Except Fault Text
  | .json => Render.json (s.unfold v)
  | .yaml => do return (← Yaml.Drawing.draw s v).document

/-- A value written in the format of a name. -/
def renderNamed (s : Store) (v : Value) (format : Text) : Except Fault Text :=
  match Format.ofName? format with
  | some f => s.render v f
  | none => .error (.unknownFormat format)

end Store

/-- The message about a format that does not exist. -/
def unknownFormatMessage (format : Text) : Text := text "Unsupported output format: " ++ format

end SwaggerDoc
