/-! # Hexadecimal digits

The value of a hexadecimal digit and of a run of them, and two digits for a byte. -/

namespace AssetPlan.Text

/-- The value of a hexadecimal digit of either case. -/
def hexDigit? (c : Char) : Option Nat :=
  if '0' ≤ c ∧ c ≤ '9' then some (c.toNat - '0'.toNat)
  else if 'a' ≤ c ∧ c ≤ 'f' then some (c.toNat - 'a'.toNat + 10)
  else if 'A' ≤ c ∧ c ≤ 'F' then some (c.toNat - 'A'.toNat + 10)
  else none

/-- The number that a run of hexadecimal digits writes, after the digits already read. -/
def hexNumber? (read : Nat) : List Char → Option Nat
  | [] => some read
  | c :: rest => do hexNumber? (16 * read + (← hexDigit? c)) rest

/-- The character with a code point, which surrogates are not. -/
def charOfCode? (code : Nat) : Option Char :=
  if code < 0xd800 ∨ (0xdfff < code ∧ code < 0x110000) then some (Char.ofNat code) else none

/-- The lower-case digit of a value below 16. -/
def hexChar (value : Nat) : Char :=
  if value < 10 then Char.ofNat ('0'.toNat + value) else Char.ofNat ('a'.toNat + (value - 10))

/-- A byte as two lower-case digits. -/
def hexByte (byte : UInt8) : List Char := [hexChar (byte.toNat / 16), hexChar (byte.toNat % 16)]

end AssetPlan.Text
