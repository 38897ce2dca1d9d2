import AssetPlan.Entries
import AssetPlan.Number

/-! # JSON values

A JSON value with the members of every object in written order. -/

namespace AssetPlan

/-- A JSON value. -/
inductive Json where
  | null
  | bool (value : Bool)
  | number (value : Number)
  | string (value : String)
  | array (items : List Json)
  | object (members : List (String × Json))

end AssetPlan
