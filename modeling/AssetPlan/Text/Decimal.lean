/-! # Decimal digits

Numbers of a fixed count of digits, read and written. -/

namespace AssetPlan.Text

/-- The value of a run of decimal digits. -/
def decimalValue (digits : List Char) : Nat :=
  digits.foldl (fun n c => 10 * n + (c.toNat - '0'.toNat)) 0

/-- The number in exactly so many digits at the start, and what follows. -/
def fixedDecimal? (count : Nat) (cs : List Char) : Option (Nat × List Char) :=
  let digits := cs.take count
  if digits.length = count ∧ digits.all Char.isDigit then some (decimalValue digits, cs.drop count) else none

/-- The number in at least so many digits, with leading zeros. -/
def padded (count : Nat) (value : Nat) : List Char :=
  let digits := Nat.toDigits 10 value
  List.replicate (count - digits.length) '0' ++ digits

end AssetPlan.Text
