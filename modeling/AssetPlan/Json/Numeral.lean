import AssetPlan.Number

/-! # JSON numerals

A numeral without fraction and exponent is an integer when 64 bits hold it, signed or unsigned. Any
other one is a double, made in two roundings: the significand, cut to 64 bits, is rounded to a double
and then multiplied or divided by a power of ten. A numeral too large for a double is refused. -/

namespace AssetPlan.Json.Numeral

/-- What the digits before and after the point give: a significand below `2 ^ 64` and the exponent of
    ten that goes with it. -/
structure Decimal where
  significand : Nat
  exponent : Int
  deriving DecidableEq, Repr

/-- The limit of significands. -/
def significandLimit : Nat := Nat.pow 2 64

/-- The value of a run of digits. -/
def digitsValue (digits : List Char) : Nat :=
  digits.foldl (fun n c => 10 * n + (c.toNat - '0'.toNat)) 0

/-- Reads digits before the point: those that no longer fit the significand raise the exponent. -/
def integerPart (d : Decimal) : List Char → Decimal
  | [] => d
  | c :: rest =>
    let next := 10 * d.significand + (c.toNat - '0'.toNat)
    if next < significandLimit then integerPart ⟨next, 0⟩ rest
    else ⟨d.significand, ((c :: rest).length : Int)⟩

/-- Reads digits after the point: those that no longer fit the significand are dropped. -/
def fractionPart (d : Decimal) : List Char → Decimal
  | [] => d
  | c :: rest =>
    let next := 10 * d.significand + (c.toNat - '0'.toNat)
    if next < significandLimit then fractionPart ⟨next, d.exponent - 1⟩ rest else d

/-- The magnitude `significand · 10 ^ exponent`: one multiplication or division by a power of ten up to
    `10 ^ 308`, after as many divisions by `10 ^ 308` as a smaller exponent takes. A zero is reached
    after at most three of them. Nothing if the magnitude is too large. -/
def scale (value : Double) (exponent : Int) : Nat → Option Double
  | 0 => some value
  | fuel + 1 =>
    if exponent.natAbs ≤ 308 then
      if 0 ≤ exponent then
        let product := value.mul (.powerOfTen exponent.natAbs)
        if product.isFinite then some product else none
      else some (value.div (.powerOfTen exponent.natAbs))
    else if value.isZero then some value
    else if 0 ≤ exponent then none
    else scale (value.div (.powerOfTen 308)) (exponent + 308) fuel

/-- The double that sign, significand and exponent write. -/
def double? (negative : Bool) (d : Decimal) : Option Number := do
  let value ← scale (.ofRatio false d.significand 1) d.exponent 4
  some (.double (if negative then value.neg else value))

/-- The integer that sign and digits write, a double when 64 bits do not hold it. A negative zero is a
    double. -/
def integer? (negative : Bool) (digits : List Char) : Option Number :=
  let value := digitsValue digits
  if value < significandLimit then
    if ! negative then some (.integer value)
    else if value ≠ 0 ∧ value ≤ Nat.pow 2 63 then some (.integer (-value))
    else double? negative ⟨value, 0⟩
  else double? negative (integerPart ⟨0, 0⟩ digits)

/-- The largest exponent that a numeral may write with a significand that is not zero. -/
def exponentLimit : Nat := Nat.pow 2 31

/-- The double that sign, decimal and a written exponent give. An exponent beyond 32 bits makes zero,
    or is refused when it raises a significand that is not zero. -/
def scaled? (negative : Bool) (d : Decimal) (exponentNegative : Bool) (digits : List Char) : Option Number :=
  let written := digitsValue digits
  if written < exponentLimit then
    double? negative ⟨d.significand, if exponentNegative then d.exponent - written else d.exponent + written⟩
  else if d.significand ≠ 0 ∧ ! exponentNegative then none
  else double? negative ⟨0, 0⟩

/-- The exponent part, from its sign on. -/
def exponentPart? (negative : Bool) (d : Decimal) (cs : List Char) : Option Number :=
  let (exponentNegative, digits) := match cs with
    | '-' :: rest => (true, rest)
    | '+' :: rest => (false, rest)
    | rest => (false, rest)
  if digits ≠ [] ∧ digits.all Char.isDigit then scaled? negative d exponentNegative digits else none

/-- A whole numeral: a minus sign, digits without a leading zero, a fraction, an exponent. -/
def read? (cs : List Char) : Option Number :=
  let (negative, cs) := match cs with
    | '-' :: rest => (true, rest)
    | rest => (false, rest)
  let whole := cs.takeWhile Char.isDigit
  if whole = [] ∨ (whole.head? = some '0' ∧ whole.length ≠ 1) then none
  else match cs.dropWhile Char.isDigit with
    | [] => integer? negative whole
    | '.' :: rest =>
      let fraction := rest.takeWhile Char.isDigit
      if fraction = [] then none
      else
        let d := fractionPart (integerPart ⟨0, 0⟩ whole) fraction
        match rest.dropWhile Char.isDigit with
        | [] => double? negative d
        | e :: rest => if e = 'e' ∨ e = 'E' then exponentPart? negative d rest else none
    | e :: rest =>
      if e = 'e' ∨ e = 'E' then exponentPart? negative (integerPart ⟨0, 0⟩ whole) rest else none

example : read? "-7".toList = some (.integer (-7)) := by decide
example : read? "1e2".toList = some (.double ⟨0x4059000000000000⟩) := by decide +kernel
example : read? "01".toList = none := by decide

end AssetPlan.Json.Numeral
