import AssetPlan.Json
import AssetPlan.Json.Token

/-! # Reading JSON

A JSON text is read token by token with the open arrays and objects on a stack, which holds at most
`depth` of them. Of two members with one key, the first gives the place and the last the value. -/

namespace AssetPlan.Json

/-- An array or object that is not closed yet. -/
inductive Frame where
  | array (items : List Json)
  | object (members : Entries String Json) (key : String)

/-- What the text has given so far. -/
inductive Progress where
  /-- A value is due. -/
  | value
  /-- An array was just opened: a value is due, or its end. -/
  | firstItem
  /-- An object was just opened: a key is due, or its end. -/
  | firstKey
  /-- A key is due, after the members before. -/
  | key (members : Entries String Json)
  /-- The colon after a key is due. -/
  | colon (members : Entries String Json) (key : String)
  /-- A value is complete. -/
  | complete (value : Json)

/-- One token where a value is due. An open object shows on the stack as soon as its first key is read,
    an open array at once. -/
def valueStep? (depth : Nat) (stack : List Frame) : Token → Option (Progress × List Frame)
  | .value scalar => some (.complete scalar, stack)
  | .openArray => if stack.length < depth then some (.firstItem, .array [] :: stack) else none
  | .openObject => if stack.length < depth then some (.firstKey, stack) else none
  | _ => none

/-- One token. -/
def step? (depth : Nat) : Progress → List Frame → Token → Option (Progress × List Frame)
  | .value, stack, token => valueStep? depth stack token
  | .firstItem, .array _ :: stack, .closeArray => some (.complete (.array []), stack)
  | .firstItem, stack, token => valueStep? depth stack token
  | .firstKey, stack, .closeObject => some (.complete (.object []), stack)
  | .firstKey, stack, .value (.string key) => some (.colon [] key, stack)
  | .key members, stack, .value (.string key) => some (.colon members key, stack)
  | .colon members key, stack, .colon => some (.value, .object members key :: stack)
  | .complete value, .array items :: stack, .comma => some (.value, .array (value :: items) :: stack)
  | .complete value, .array items :: stack, .closeArray => some (.complete (.array (value :: items).reverse), stack)
  | .complete value, .object members key :: stack, .comma => some (.key (Entries.insert members key value), stack)
  | .complete value, .object members key :: stack, .closeObject =>
    some (.complete (.object (Entries.insert members key value)), stack)
  | _, _, _ => none

/-- All tokens: the value, if it is complete with the last one. -/
def ofTokens? (depth : Nat) : Progress → List Frame → List Token → Option Json
  | .complete value, [], [] => some value
  | _, _, [] => none
  | progress, stack, token :: rest => do
    let (progress, stack) ← step? depth progress stack token
    ofTokens? depth progress stack rest

/-- The depth to which a configuration file may nest arrays and objects. -/
def fileDepth : Nat := 127

/-- The value that a text writes, nested at most `depth` deep. -/
def ofText? (depth : Nat) (text : List Char) : Option Json := do
  ofTokens? depth .value [] (← Token.ofText? text)

example : (ofText? 2 "[[]]".toList).isSome = true := by decide
example : (ofText? 1 "[[]]".toList).isNone = true := by decide

end AssetPlan.Json
