import AssetPlan.Value

/-! # Values and JSON

Every JSON value is a configuration value. The other way regular expressions are written between
slashes and predicates as a fixed text, so a value without those leaves comes back as it was. -/

namespace AssetPlan.Value

mutual

/-- The configuration value of a JSON value. -/
def ofJson : Json → Value
  | .null => .null
  | .bool b => .bool b
  | .number n => .number n
  | .string s => .string s
  | .array items => .list (ofJsonItems items)
  | .object members => .mapping (ofJsonMembers members)
termination_by structural j => j

/-- The configuration values of JSON values. -/
def ofJsonItems : List Json → List Value
  | [] => []
  | j :: rest => ofJson j :: ofJsonItems rest
termination_by structural js => js

/-- The entries of JSON members. -/
def ofJsonMembers : List (String × Json) → List (String × Value)
  | [] => []
  | (k, j) :: rest => (k, ofJson j) :: ofJsonMembers rest
termination_by structural ms => ms

end

/-- What stands for a predicate in JSON. -/
def predicateText : String := "[predicate]"

mutual

/-- The value as JSON. -/
def toJson : Value → Json
  | .null => .null
  | .bool b => .bool b
  | .number n => .number n
  | .string s => .string s
  | .list items => .array (toJsonItems items)
  | .mapping entries => .object (toJsonMembers entries)
  | .regex r => .string ("/" ++ r.source ++ "/")
  | .predicate _ => .string predicateText
termination_by structural v => v

/-- Values as JSON. -/
def toJsonItems : List Value → List Json
  | [] => []
  | v :: rest => toJson v :: toJsonItems rest
termination_by structural vs => vs

/-- Entries as JSON. -/
def toJsonMembers : List (String × Value) → List (String × Json)
  | [] => []
  | (k, v) :: rest => (k, toJson v) :: toJsonMembers rest
termination_by structural es => es

end

end AssetPlan.Value
