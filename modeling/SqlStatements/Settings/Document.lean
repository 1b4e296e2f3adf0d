import SqlStatements.Json.Parse
import SqlStatements.Settings.Draft
import SqlStatements.Yaml.Document

namespace SqlStatements.Settings
open SqlStatements

def jsonText? : Json → Option Text
  | .string pieces => Json.Piece.text? pieces
  | _ => none

/-- Adds a member of an object. Unknown keys are passed over, known ones may come once. -/
def addMember? (d : Draft) (key : List Json.Piece) (value : Json) : Option Draft :=
  match Json.Piece.text? key with
  | none => none
  | some key =>
    match Field.ofKey? key with
    | none => some d
    | some field =>
      if (d.get? field).isSome then none else (jsonText? value).map (d.set field)

/-- The settings of a document: an object with any of the fields, or an array of the
first ones. What is left out is as usual, and nothing is checked for emptiness. -/
def ofJson? : Json → Option Settings
  | .object members =>
    (members.foldlM (fun d (key, value) => addMember? d key value) Draft.empty).map
      (Draft.filledFrom · standard)
  | .array items =>
    if items.length ≤ Field.all.length then
      (items.mapM jsonText?).map fun values =>
        ((Field.all.zip values).foldl (fun d (field, value) => d.set field value)
          Draft.empty).filledFrom standard
    else none
  | _ => none

/-- The text of a value that is a scalar. A tag may say that it is no text. -/
def yamlText? : Yaml.Node → Option Text
  | .scalar tag _ text => if tag.any notText.contains then none else some text
  | _ => none
where
  notText : List Text :=
    ["!!null", "!!bool", "!!int", "!!float", "!!binary", "!!seq", "!!map"].map String.toList

/-- Adds an entry of a mapping. Unknown keys are passed over. -/
def addEntry? (d : Draft) (key value : Yaml.Node) : Option Draft :=
  match key.text? with
  | none => none
  | some key =>
    match Field.ofKey? key with
    | none => some d
    | some field => (yamlText? value).map (d.set field)

def ofNode? : Yaml.Node → Option Draft
  | .mapping entries => entries.foldlM (fun d (key, value) => addEntry? d key value) Draft.empty
  | _ => none

/-- The fields that a document with one mapping sets. -/
def Draft.ofYaml? (document : Text) : Option Draft := (Yaml.parse? document).bind ofNode?

end SqlStatements.Settings
