import AssetPlan.Json
import AssetPlan.Toml.Datetime

/-! # Content of a TOML document

The values of a document, with dates and times kept apart from strings, and the JSON value that stands
for them. A date or time stands as its text. A table whose first key is `Content.datetimeKey` stands for
the date or time that a string under that key writes, and what else it holds is dropped. -/

namespace AssetPlan.Toml

/-- A value of a document. -/
inductive Content where
  /-- A string, a boolean or a number; a number without a JSON form is null. -/
  | plain (value : Json)
  | datetime (d : Datetime)
  | array (items : List Content)
  | table (entries : List (String × Content))

namespace Content

/-- The key of a table that stands for a date or a time. -/
def datetimeKey : String := "$__toml_private_datetime"

/-- The content under the key of a date or a time, which counts in the first place only. -/
def datetimeEntry? : List (String × Content) → Option Content
  | [] => none
  | (key, content) :: _ => if key = datetimeKey then some content else none

/-- The date or time that a string writes. -/
def writtenDatetime? : Content → Option Datetime
  | .plain (.string s) => Datetime.ofText? s
  | _ => none

mutual

/-- The JSON value that stands for the content. -/
def toJson? : Content → Option Json
  | .plain value => some value
  | .datetime d => some (.string d.text)
  | .array items => (itemsToJson? items).map .array
  | .table entries =>
    match datetimeEntry? entries with
    | some content => (writtenDatetime? content).map fun d => .string d.text
    | none => (membersToJson? entries).map .object
termination_by structural c => c

/-- The JSON values of the items of an array. -/
def itemsToJson? : List Content → Option (List Json)
  | [] => some []
  | c :: rest => do
    let value ← toJson? c
    let values ← itemsToJson? rest
    some (value :: values)
termination_by structural cs => cs

/-- The JSON members of a table. -/
def membersToJson? : List (String × Content) → Option (List (String × Json))
  | [] => some []
  | (key, c) :: rest => do
    let value ← toJson? c
    let members ← membersToJson? rest
    some ((key, value) :: members)
termination_by structural es => es

end

end Content
end AssetPlan.Toml
