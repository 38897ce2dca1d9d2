import AssetPlan.ConfigError

/-! # Watched directories

`paths.watched` is a list of strings that is not empty, or one string. -/

namespace AssetPlan.Value

/-- The key of the watched directories. -/
def watchedKey : List String := ["paths", "watched"]

/-- The strings of a list; the first other item is the error. -/
def watchedItems : List Value → Except ConfigError (List String)
  | [] => .ok []
  | .string s :: rest => (watchedItems rest).map (s :: ·)
  | v :: _ => .error (.structural watchedKey (.strayEntry v.kind))

/-- The watched directories that a value lists. -/
def watched : Value → Except ConfigError (List String)
  | .string s => .ok [s]
  | .list [] => .error (.structural watchedKey .emptyList)
  | .list items => watchedItems items
  | v => .error (.structural watchedKey (.ofKind .strings v))

end AssetPlan.Value
