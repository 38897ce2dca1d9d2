import AssetPlan.ConfigError

/-! # Values as patterns

A string, a regular expression, a predicate or a list of patterns is a pattern. The regular expressions
of a value are compiled when it is read as one, and the first that does not compile is the error. -/

namespace AssetPlan.Value

mutual

/-- The pattern that a value is; `key` leads to it. -/
def toPattern (key : List String) : Value → Except ConfigError Pattern
  | .string s => (Pattern.ofText s).mapError (.pattern key)
  | .regex r => .ok (.regex r)
  | .predicate p => .ok (.predicate p)
  | .list items => (toPatterns key items).map .any
  | v => .error (.structural key (.ofKind .pattern v))
termination_by structural v => v

/-- The patterns of a list. -/
def toPatterns (key : List String) : List Value → Except ConfigError (List Pattern)
  | [] => .ok []
  | v :: rest => do
    let p ← toPattern key v
    let ps ← toPatterns key rest
    .ok (p :: ps)
termination_by structural vs => vs

end

/-- A compiled regular expression for the setting at a key. -/
def ofSource (key : List String) (source : String) : Except ConfigError Value :=
  match Regex.ofSource? source false with
  | some r => .ok (.regex r)
  | none => .error (.pattern key ⟨source⟩)

end AssetPlan.Value
