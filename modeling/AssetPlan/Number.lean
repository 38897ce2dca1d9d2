import AssetPlan.Number.Double

/-! # Numbers of a configuration

A number is an integer or a finite double; the two kinds are never equal, so that `1.0` is no port. -/

namespace AssetPlan

/-- A number: an integer, or a finite double. The readers make integers between `-2 ^ 63` and
    `2 ^ 64 - 1` only; what lies outside is a double. -/
inductive Number where
  | integer (value : Int)
  | double (value : Double)
  deriving DecidableEq, Repr

namespace Number

/-- The natural number that an integer is. -/
def toNat? : Number → Option Nat
  | .integer (.ofNat n) => some n
  | _ => none

/-- Equality by value within one kind. -/
def equal : Number → Number → Bool
  | .integer a, .integer b => a == b
  | .double a, .double b => a.equal b
  | _, _ => false

theorem equal_refl (a : Number) : equal a a = true := by
  cases a <;> simp [equal, Double.equal_refl]

theorem equal_symm {a b : Number} (h : equal a b = true) : equal b a = true := by
  cases a <;> cases b <;> simp_all [equal, Double.equal_symm]

theorem equal_trans {a b c : Number} (hab : equal a b = true) (hbc : equal b c = true) : equal a c = true := by
  cases a <;> cases b <;> cases c <;> simp_all [equal]
  exact Double.equal_trans hab hbc

end Number
end AssetPlan
