/-! # Binary floating point

A finite number of 64-bit binary floating point is a sign and a magnitude `m · 2 ^ e` with
`m < 2 ^ 53` and `-1074 ≤ e`. `Double` keeps its 64 bits; every result is the exact quotient of two
natural numbers rounded once, to the nearest double and to the even one of two. -/

namespace AssetPlan

/-- A 64-bit floating point number, by its bits. -/
structure Double where
  bits : UInt64
  deriving DecidableEq, Repr

namespace Double

/-- The bits of positive infinity: everything from here on is no magnitude of a finite number. -/
def infinityBits : Nat := 0x7ff0000000000000

/-- The exponent `e` for which `num / den` lies between `2 ^ 52 · 2 ^ e` and `2 ^ 53 · 2 ^ e`, or the
    least exponent there is if that is smaller. -/
def exponentOf (num den : Nat) : Int :=
  let guess : Int := (num.log2 : Int) - (den.log2 : Int) - 52
  let fits := if 0 ≤ guess then den * Nat.pow 2 (guess.toNat + 52) ≤ num else den * Nat.pow 2 52 ≤ num * Nat.pow 2 (-guess).toNat
  max (if fits then guess else guess - 1) (-1074)

/-- The quotient rounded to the nearest natural number, to the even one of two. -/
def roundQuotient (num den : Nat) : Nat :=
  let quotient := num / den
  let twice := 2 * (num % den)
  if twice < den then quotient
  else if den < twice then quotient + 1
  else if quotient % 2 = 0 then quotient else quotient + 1

/-- The bits of the magnitude nearest to `num / den`; `infinityBits` above the largest one. -/
def magnitudeBits (num den : Nat) : Nat :=
  if num = 0 then 0
  else
    let e := exponentOf num den
    let significand :=
      if 0 ≤ e then roundQuotient num (den * Nat.pow 2 e.toNat) else roundQuotient (num * Nat.pow 2 (-e).toNat) den
    min ((e + 1074).toNat * Nat.pow 2 52 + significand) infinityBits

/-- A double from the bits of its magnitude. -/
def ofMagnitudeBits (negative : Bool) (magnitude : Nat) : Double :=
  ⟨UInt64.ofNat (if negative then magnitude + Nat.pow 2 63 else magnitude)⟩

/-- The double nearest to `num / den`. -/
def ofRatio (negative : Bool) (num den : Nat) : Double := ofMagnitudeBits negative (magnitudeBits num den)

/-- The bits without the sign. -/
def magnitude (d : Double) : Nat := d.bits.toNat % Nat.pow 2 63

/-- The sign bit. -/
def isNegative (d : Double) : Bool := Nat.pow 2 63 ≤ d.bits.toNat

/-- Whether the double is a number, and not an infinity. -/
def isFinite (d : Double) : Bool := d.magnitude < infinityBits

/-- Whether the double is a zero of either sign. -/
def isZero (d : Double) : Bool := d.magnitude == 0

/-- Numerator and denominator of a finite magnitude. -/
def ratio (d : Double) : Nat × Nat :=
  let biased : Nat := d.magnitude / Nat.pow 2 52
  let fraction : Nat := d.magnitude % Nat.pow 2 52
  let (m, e) := if biased = 0 then (fraction, (-1074 : Int)) else (fraction + Nat.pow 2 52, (biased : Int) - 1075)
  if 0 ≤ e then (m * Nat.pow 2 e.toNat, 1) else (m, Nat.pow 2 (-e).toNat)

/-- The product of two finite doubles, rounded once. -/
def mul (a b : Double) : Double :=
  ofRatio (a.isNegative != b.isNegative) (a.ratio.1 * b.ratio.1) (a.ratio.2 * b.ratio.2)

/-- The quotient of two finite doubles, the second not zero, rounded once. -/
def div (a b : Double) : Double :=
  ofRatio (a.isNegative != b.isNegative) (a.ratio.1 * b.ratio.2) (a.ratio.2 * b.ratio.1)

/-- The number with the other sign. -/
def neg (d : Double) : Double := ofMagnitudeBits (!d.isNegative) d.magnitude

/-- The double nearest to `10 ^ n`. -/
def powerOfTen (n : Nat) : Double := ofRatio false (Nat.pow 10 n) 1

/-- The double nearest to `digits · 10 ^ exponent`. Outside of 400 places around the point the answer
    is known without the power: infinity or zero. -/
def ofDecimal (negative : Bool) (digits : Nat) (exponent : Int) : Double :=
  let leading : Int := (Nat.toDigits 10 digits).length + exponent
  if digits = 0 ∨ leading < -400 then ofMagnitudeBits negative 0
  else if 400 < leading then ofMagnitudeBits negative infinityBits
  else if 0 ≤ exponent then ofRatio negative (digits * Nat.pow 10 exponent.toNat) 1
  else ofRatio negative digits (Nat.pow 10 (-exponent).toNat)

/-- Equality of finite numbers: the two zeros are one number. -/
def equal (a b : Double) : Bool := a == b || (a.isZero && b.isZero)

theorem equal_refl (a : Double) : equal a a = true := by simp [equal]

theorem equal_symm {a b : Double} (h : equal a b = true) : equal b a = true := by
  simp only [equal, Bool.or_eq_true, beq_iff_eq, Bool.and_eq_true] at h ⊢
  exact h.imp Eq.symm And.symm

theorem equal_trans {a b c : Double} (hab : equal a b = true) (hbc : equal b c = true) : equal a c = true := by
  simp only [equal, Bool.or_eq_true, beq_iff_eq, Bool.and_eq_true] at hab hbc ⊢
  rcases hab with rfl | ⟨ha, hb⟩
  · exact hbc
  · rcases hbc with rfl | ⟨_, hc⟩
    · exact Or.inr ⟨ha, hb⟩
    · exact Or.inr ⟨ha, hc⟩

example : (ofRatio false 1 10).bits = 0x3fb999999999999a := by decide +kernel
example : (ofDecimal true 15 (-1)).bits = 0xbff8000000000000 := by decide +kernel
example : (ofDecimal false 49 (-325)).bits = 1 := by decide +kernel
example : (ofRatio false (2 ^ 53 + 1) 1).ratio = (2 ^ 53, 1) := by decide +kernel

end Double
end AssetPlan
