import AssetPlan.Value

/-! # Equality of values

Two values are equal if they are of one kind and hold the same: mappings in any order of their keys,
lists in order, regular expressions by their sources, predicates by their identities. -/

namespace AssetPlan.Value

mutual

/-- Whether two values are equal. -/
def equal : Value → Value → Bool
  | .null, b => b.isNull
  | .bool a, .bool b => a == b
  | .number a, .number b => a.equal b
  | .string a, .string b => a == b
  | .list a, .list b => allEqual a b
  | .mapping a, .mapping b => a.length == b.length && entriesWithin a b
  | .regex a, .regex b => a.source == b.source
  | .predicate a, .predicate b => a.identity == b.identity
  | _, _ => false
termination_by structural a => a

/-- Whether two lists are equal, item by item. -/
def allEqual : List Value → List Value → Bool
  | [], [] => true
  | a :: as, b :: bs => equal a b && allEqual as bs
  | _, _ => false
termination_by structural as => as

/-- Whether every entry occurs in a mapping with an equal value. -/
def entriesWithin : List (String × Value) → List (String × Value) → Bool
  | [], _ => true
  | (k, a) :: rest, b =>
    (match Entries.get? b k with
      | some v => equal a v
      | none => false) && entriesWithin rest b
termination_by structural as => as

end

end AssetPlan.Value
