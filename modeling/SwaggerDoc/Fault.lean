import SwaggerDoc.Text.Quoted
import SwaggerDoc.Name

/-!
What can go wrong, as causes.

A value that a model does not accept is reported as a list of issues, each with the location inside
the value. Everything else that stops an operation is one cause. The wording lives here in one place
for each kind of cause.
-/

namespace SwaggerDoc

/-- One step from a value to a part of it. -/
inductive LocationItem where
  | name (t : Text)
  | index (i : Int)
  deriving DecidableEq, Repr

/-- What is wrong with a value that a model does not accept. -/
inductive IssueKind where
  | missing
  | notText
  | notUnicode
  | notBool
  | unreadableBool
  | notInt
  | unreadableInt
  | notFloat
  | unreadableFloat
  | notList
  | notMap
  /-- Neither a mapping nor an instance of the named model. -/
  | notModel (model : Text)
  | notMethod
  /-- A route that ends in a placeholder addresses one member instead of the collection. -/
  | itemRoute (route : Text)
  deriving DecidableEq, Repr

/-- An issue and the place inside the value at which it was found. -/
structure Issue where
  location : List LocationItem
  kind : IssueKind
  deriving DecidableEq, Repr

namespace IssueKind

/-- The short name of an issue. -/
def code : IssueKind → Text
  | .missing => text "missing"
  | .notText => text "string_type"
  | .notUnicode => text "string_unicode"
  | .notBool => text "bool_type"
  | .unreadableBool => text "bool_parsing"
  | .notInt => text "int_type"
  | .unreadableInt => text "int_parsing"
  | .notFloat => text "float_type"
  | .unreadableFloat => text "float_parsing"
  | .notList => text "list_type"
  | .notMap => text "dict_type"
  | .notModel _ => text "model_type"
  | .notMethod => text "enum"
  | .itemRoute _ => text "value_error"

/-- The sentence that explains an issue. -/
def message : IssueKind → Text
  | .missing => text "Field required"
  | .notText => text "Input should be a valid string"
  | .notUnicode =>
    text "Input should be a valid string, unable to parse raw data as a unicode string"
  | .notBool => text "Input should be a valid boolean"
  | .unreadableBool => text "Input should be a valid boolean, unable to interpret input"
  | .notInt => text "Input should be a valid integer"
  | .unreadableInt =>
    text "Input should be a valid integer, unable to parse string as an integer"
  | .notFloat => text "Input should be a valid number"
  | .unreadableFloat => text "Input should be a valid number, unable to parse string as a number"
  | .notList => text "Input should be a valid list"
  | .notMap => text "Input should be a valid dictionary"
  | .notModel model =>
    text "Input should be a valid dictionary or instance of " ++ model
  | .notMethod => text "Input should be 'index', 'post', 'get', 'put' or 'delete'"
  | .itemRoute route =>
    text "Value error, route must address the collection, got " ++ Text.quoted route

end IssueKind

/-- An issue found one step further inside a value. -/
def Issue.within (step : LocationItem) (issue : Issue) : Issue :=
  { issue with location := step :: issue.location }

/-- What stopped an operation. -/
inductive Fault where
  /-- A resource cannot be compiled. -/
  | compile (message : Text)
  /-- A field has a scalar tag that no rule knows: the tag, its shown form, and the field once it
  is known. -/
  | unrecognized (tag : Value) (shown : Text) (field : Option Name)
  /-- A resource file cannot be used; the issues are there when its content was not accepted. -/
  | file (message : Text) (issues : Option (List Issue))
  /-- A value is not accepted by the named model. -/
  | invalid (model : Text) (issues : List Issue)
  /-- There is no output format of that name. -/
  | unknownFormat (name : Text)
  /-- A value of a fitting kind that is no fitting value. -/
  | badValue
  /-- A value of a kind that the operation does not take. -/
  | wrongKind
  | noKey
  | noIndex
  | noAttribute
  /-- A number too large for a double. -/
  | tooLarge
  /-- The parts of a value are nested without end. -/
  | tooDeep
  /-- A value that the document format has no form for. -/
  | notRepresentable
  /-- A text with a surrogate half, which no file can hold. -/
  | notEncodable
  /-- A file stands where a directory is needed. -/
  | fileExists
  /-- A path leads through a file. -/
  | notDirectory
  /-- A directory stands where a file is to be written. -/
  | isDirectory
  /-- A path is longer than any that exists. -/
  | nameTooLong
  deriving DecidableEq, Repr

namespace Fault

/-- A message with the field that it is about, as both are reported together. -/
def withField (message : Text) (field : Option Text) : Text :=
  match field with
  | none => message
  | some name => message ++ text " | Field: " ++ name

/-- The message about an unrecognised tag. -/
def unrecognizedMessage (shown : Text) : Text := text "Unrecognized type: " ++ shown

/-- The report of the faults that a compile run is expected to have; the others have none. -/
def report? : Fault → Option Text
  | .compile message => some message
  | .file message _ => some message
  | .unrecognized _ shown field =>
    some (withField (unrecognizedMessage shown) (field.map Name.written))
  | _ => none

/-- A few words for a fault that has no report of its own. -/
def words : Fault → Text
  | .invalid model _ => text "Value not accepted by " ++ model
  | .unknownFormat name => text "Unsupported output format: " ++ name
  | .badValue => text "Unsuitable value"
  | .wrongKind => text "Value of an unsuitable kind"
  | .noKey => text "Missing key"
  | .noIndex => text "Missing item"
  | .noAttribute => text "Missing attribute"
  | .tooLarge => text "Number too large"
  | .tooDeep => text "Value nested too deep"
  | .notRepresentable => text "Value without a written form"
  | .notEncodable => text "Text that cannot be encoded"
  | .fileExists => text "File exists"
  | .notDirectory => text "Not a directory"
  | .isDirectory => text "Is a directory"
  | .nameTooLong => text "File name too long"
  | f => (report? f).getD []

end Fault

end SwaggerDoc
