import SwaggerDoc.Proofs.Json.Nodes
import SwaggerDoc.Proofs.ResourceFile

/-!
Resource files in JSON.

The graph of a portable text is that of its data, so that a file with the text is read as the
resource and the definition in them (`portable_json_is_read_as_its_data`). Not every text is
portable: a character that is escaped in two halves stays in two halves
(`escaped_halves_stay_apart`).
-/

namespace SwaggerDoc

open Yaml

namespace Json

/-- What denotes a mapping has parts between brackets. -/
theorem isCollection_of_data {v : Json} {entries : List (Text × Data)}
    (root : v.data = .map entries) : v.isCollection = true := by
  cases v with
  | null | bool b | number negative digits numeral | string pieces =>
    rw [data] at root
    cases root
  | _ => rfl

end Json

namespace ResourceFile

/-- A file with a JSON text is read as a resource and a definition, whatever the file is called and
whatever the store holds into which it is read. -/
def ReadsJson (document : JsonText) (r : Resource) (definition : List (Text × Data)) : Prop :=
  ∀ (t : Store) (tree : FileTree) (path : Path) (octets : Octets),
    path.parts.any (·.contains 0) = false → tree.read path = .ok octets →
    Octets.decode octets = .ok document.characters →
    ∃ file t' places, load t tree path = .ok (file, t') ∧ file.resource = r ∧
      t'.Stands (.map definition) file.definition places

section Portable

variable {document : JsonText} {entries resource definition : List (Text × Data)} {r : Resource}

/-- A portable text of an object that has a resource that is accepted, a definition and no schema,
and in which no object has a name twice, is read as the data that it denotes. -/
theorem portable_json_is_read_as_its_data {s : Store} {rv : Value} {inner : List Place}
    (portable : JsonText.isPortable document = true) (root : document.inner.data = .map entries)
    (distinct : (Data.map entries).DistinctKeys)
    (taken : entries.lookup (text "resource") = some (.map resource))
    (defined : entries.lookup (text "definition") = some (.map definition))
    (noSchema : entries.lookup (text "schema") = none)
    (accepted : checkModel s Resource.modelName (Resource.ofEntries s) rv = .accepted r)
    (offered : s.Stands (.map resource) rv inner) : ReadsJson document r definition := by
  intro t tree path octets noNul held decoded
  obtain ⟨nodes, graph, there⟩ :=
    JsonText.exists_graph portable (Json.isCollection_of_data root)
  rw [root] at there
  obtain ⟨v, t', places, loads, stands⟩ := Yaml.exists_load graph there distinct t
  obtain ⟨file, t'', places', made, same, defines⟩ :=
    exists_ofValue accepted offered taken defined noSchema stands path.shown
  have readable : readText tree path = .ok document.characters := by
    simp only [readText, noNul, held, decoded, Bool.false_eq_true, if_false]
  refine ⟨file, t'', places', ?_, same, defines⟩
  rw [load, readable]
  simp only [bind, Except.bind, loads]
  exact made

end Portable

namespace JsonSample

open Json ReadBackSample

/-- The characters of a text as they are. -/
def plainly (t : String) : List Json.Piece :=
  (text t).filterMap fun x =>
    if ordinary : (32 ≤ x && x != 34 && x != 92 && x < 0x110000) = true then
      some (.raw x ordinary)
    else none

def noBlanks : Blanks := ⟨[], rfl⟩

/-- The end of a line, in two characters, and a space. -/
def nextLine : Blanks := ⟨[13, 10, 32], rfl⟩

/-- A part at the beginning of a line. -/
def onLine {α : Type} (x : α) : Padded α := ⟨nextLine, x, noBlanks⟩

def member (name : String) (value : Json) : Member Json := ⟨onLine (plainly name), onLine value⟩

/-- The resource as JSON. -/
def jsonOffer : Json :=
  .object (member "route" (.string (plainly "/a")))
    [member "name" (.string (plainly "b")), member "model_name" (.string (plainly "C")),
      member "methods" (.array (onLine (.string (plainly "get"))) [])]

/-- A text with the resource and with a definition that begins with a description. -/
def textWith (description : List Json.Piece) (more : List (Member Json)) : JsonText :=
  onLine (.object (member "resource" jsonOffer)
    [member "definition" (.object (member "description" (.string description)) more)])

/-- The definition in the text. -/
def definitionWith (description : Text) (more : List (Text × Data)) : List (Text × Data) :=
  (text "description", .atom (.text description)) :: more

/-- An accent by its number, a separator of lines as it is, and a slash behind a backslash. -/
def escapes : List Json.Piece :=
  [.unit ⟨text "00e9", rfl, rfl⟩, .raw 0x2028 rfl, .escape .slash]

/-- A member whose value has parts of each other kind. -/
def kinds : Member Json :=
  member "x" (.array (onLine .null)
    [onLine (.bool true), onLine (.number true (Text.ofNat 12) (numeral_ofNat 12)),
      onLine (.emptyArray nextLine), onLine (.emptyObject nextLine)])

def kindsData : Data :=
  .list [.atom .null, .atom (.bool true), .atom (.int (-12)), .list [], .map []]

/-- The two halves of a character outside the basic plane. -/
def halves : List Json.Piece := [.unit ⟨text "d83d", rfl, rfl⟩, .unit ⟨text "DE00", rfl, rfl⟩]

/-- The name of the file. -/
def path : Path := Path.of (text "r.yaml")

/-- The definition in a file with a text. -/
def definitionIn (w : Text) : Except Fault (Option Cell) := do
  let (file, t) ← load .empty (files w) path
  return t.deref? file.definition

theorem offer_distinctKeys : (Data.map offer).DistinctKeys :=
  ⟨by decide, trivial, trivial, trivial, ⟨trivial, trivial⟩, trivial⟩

/-- No mapping has a key twice if none in the definition has. -/
theorem document_distinctKeys {entries : List (Text × Data)}
    (distinct : (Data.map entries).DistinctKeys) :
    (Data.map (documentOf offer entries)).DistinctKeys := by
  have apart : [text "resource", text "definition"].Nodup := by decide
  exact ⟨apart, offer_distinctKeys, distinct, trivial⟩

/-- The halves are two characters, which stand for nothing by themselves. -/
theorem definitionIn_halves : definitionIn (textWith halves []).characters =
    .ok (some (.map [(.ofText (text "description"), .ofText [0xD83D, 0xDE00])])) := by
  decide +kernel

end JsonSample

open JsonSample ReadBackSample in
/-- A text with line ends of two characters, escapes, a separator of lines in a string and values of
each kind is read. -/
theorem json_of_each_kind_is_read : ∃ file t places,
    load .empty (files (textWith escapes [kinds]).characters) path = .ok (file, t) ∧
      file.resource = acceptedResource ∧
      t.Stands (.map (definitionWith [233, 0x2028, 47] [(text "x", kindsData)])) file.definition
        places := by
  have distinct : (Data.map (definitionWith [233, 0x2028, 47] [(text "x", kindsData)])).DistinctKeys :=
    ⟨by decide, trivial, ⟨trivial, trivial, trivial, trivial, ⟨List.nodup_nil, trivial⟩, trivial⟩,
      trivial⟩
  have reads : ReadsJson (textWith escapes [kinds]) acceptedResource
      (definitionWith [233, 0x2028, 47] [(text "x", kindsData)]) :=
    portable_json_is_read_as_its_data (by decide +kernel) (by rfl) (document_distinctKeys distinct)
      rfl rfl rfl (accepted []) (offer_stands [])
  exact reads .empty _ path _ (by decide) rfl (by decide +kernel)

open JsonSample ReadBackSample in
/-- Not every JSON text is read as its data. -/
theorem escaped_halves_stay_apart :
    ¬ ∀ (document : JsonText) (entries resource definition : List (Text × Data)) (r : Resource)
      (s : Store) (rv : Value) (inner : List Place),
      document.inner.data = .map entries → (Data.map entries).DistinctKeys →
      entries.lookup (text "resource") = some (.map resource) →
      entries.lookup (text "definition") = some (.map definition) →
      entries.lookup (text "schema") = none →
      checkModel s Resource.modelName (Resource.ofEntries s) rv = .accepted r →
      s.Stands (.map resource) rv inner → ReadsJson document r definition := by
  intro claim
  have distinct : (Data.map (definitionWith [128512] [])).DistinctKeys :=
    ⟨by decide, trivial, trivial⟩
  have reads : ReadsJson (textWith halves []) acceptedResource
      (definitionWith [128512] []) :=
    claim _ _ _ _ _ _ _ _ (by rfl) (document_distinctKeys distinct) rfl rfl rfl (accepted [])
      (offer_stands [])
  obtain ⟨file, t, places, loads, -, p, values, inner, points, -, cell, parts, -⟩ :=
    reads .empty (files (textWith halves []).characters) path _ (by decide) rfl
      (by decide +kernel)
  have shown : definitionIn (textWith halves []).characters =
      .ok (some (.map values)) := by
    simp only [definitionIn, loads, points, bind, Except.bind, Store.deref?, cell]
    rfl
  obtain ⟨_, _, _, _, rfl, -, ⟨rfl, -⟩, rfl, -⟩ := parts
  rw [definitionIn_halves] at shown
  exact absurd shown (by decide)

end ResourceFile

end SwaggerDoc
