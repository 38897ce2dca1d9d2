import AssetPlan.Json
import AssetPlan.Pattern

/-! # Configuration values

A configuration is an open-ended tree of mappings, lists and scalars, with two kinds of leaves that no
file can write: compiled regular expressions and predicates. `WellKeyed` says that no mapping in the
tree has a key twice; readers make such trees and every operation keeps them so. -/

namespace AssetPlan

/-- A configuration value. -/
inductive Value where
  | null
  | bool (value : Bool)
  | number (value : Number)
  | string (value : String)
  | list (items : List Value)
  | mapping (entries : List (String × Value))
  | regex (r : Regex)
  | predicate (p : Predicate)

/-- A mapping of a configuration. -/
abbrev Mapping := Entries String Value

/-- The kind of a value. -/
inductive Kind where
  | null
  | boolean
  | number
  | string
  | list
  | mapping
  | regex
  | predicate
  deriving DecidableEq, Repr

/-- The name of a kind in messages. -/
def Kind.name : Kind → String
  | .null => "null"
  | .boolean => "boolean"
  | .number => "number"
  | .string => "string"
  | .list => "list"
  | .mapping => "mapping"
  | .regex => "regex"
  | .predicate => "predicate"

namespace Value

/-- The kind of a value. -/
def kind : Value → Kind
  | .null => .null
  | .bool _ => .boolean
  | .number _ => .number
  | .string _ => .string
  | .list _ => .list
  | .mapping _ => .mapping
  | .regex _ => .regex
  | .predicate _ => .predicate

/-- Whether the value is null. -/
def isNull : Value → Bool
  | .null => true
  | _ => false

/-- Whether the value is a mapping. -/
def isMapping : Value → Bool
  | .mapping _ => true
  | _ => false

/-- The entries of a mapping. -/
def mapping? : Value → Option Mapping
  | .mapping entries => some entries
  | _ => none

/-- The text of a string. -/
def string? : Value → Option String
  | .string s => some s
  | _ => none

/-- The truth value of a boolean. -/
def bool? : Value → Option Bool
  | .bool b => some b
  | _ => none

/-- The natural number of an integer. -/
def nat? : Value → Option Nat
  | .number n => n.toNat?
  | _ => none

/-- The items of a list. -/
def list? : Value → Option (List Value)
  | .list items => some items
  | _ => none

/-- A natural number. -/
def ofNat (n : Nat) : Value := .number (.integer n)

/-- A list of strings. -/
def ofStrings (texts : List String) : Value := .list (texts.map .string)

/-- The strings of a list that holds nothing else. -/
def allStrings? : List Value → Option (List String)
  | [] => some []
  | .string s :: rest => (allStrings? rest).map (s :: ·)
  | _ :: _ => none

/-- The strings of a value that is one string or a list of strings. -/
def strings? : Value → Option (List String)
  | .string s => some [s]
  | .list items => allStrings? items
  | _ => none

/-- The value under a key of a mapping. -/
def get? (v : Value) (key : String) : Option Value := v.mapping?.bind (Entries.get? · key)

/-- The value at the end of a chain of keys. -/
def find? : Value → List String → Option Value
  | v, [] => some v
  | v, key :: path => (v.get? key).bind (find? · path)

@[simp] theorem find?_nil (v : Value) : find? v [] = some v := rfl

@[simp] theorem find?_cons (v : Value) (key : String) (path : List String) :
    find? v (key :: path) = (v.get? key).bind (find? · path) := rfl

mutual

/-- No mapping in the tree has a key twice. -/
def WellKeyed : Value → Prop
  | .list items => AllWellKeyed items
  | .mapping entries => Entries.WellKeyed entries ∧ EntriesWellKeyed entries
  | _ => True
termination_by structural v => v

/-- No mapping in the items has a key twice. -/
def AllWellKeyed : List Value → Prop
  | [] => True
  | v :: rest => WellKeyed v ∧ AllWellKeyed rest
termination_by structural vs => vs

/-- No mapping below the entries has a key twice. -/
def EntriesWellKeyed : List (String × Value) → Prop
  | [] => True
  | (_, v) :: rest => WellKeyed v ∧ EntriesWellKeyed rest
termination_by structural es => es

end

end Value

namespace Mapping

/-- Whether a key holds a value that is not null. -/
def hasValue (m : Mapping) (key : String) : Bool := (Entries.get? m key).any fun v => ! v.isNull

/-- Writes a value under a key that holds none or null. -/
def setDefault (m : Mapping) (key : String) (value : Value) : Mapping :=
  if hasValue m key then m else Entries.insert m key value

/-- The mapping under a key; what is no mapping counts as an empty one. -/
def child (m : Mapping) (key : String) : Mapping := ((Entries.get? m key).bind Value.mapping?).getD []

/-- Changes the mapping under a key, which is made if there is none. -/
def modifyChild (m : Mapping) (key : String) (f : Mapping → Mapping) : Mapping :=
  Entries.insert m key (.mapping (f (child m key)))

/-- Changes the mapping at the end of a chain of keys; those on the way are made if there are none. -/
def modifyAt : List String → (Mapping → Mapping) → Mapping → Mapping
  | [], f, m => f m
  | key :: path, f, m => modifyChild m key (modifyAt path f)

/-- The value at the end of a chain of keys. -/
def find? (m : Mapping) (path : List String) : Option Value := (Value.mapping m).find? path

end Mapping
end AssetPlan
