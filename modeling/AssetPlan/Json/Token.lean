import AssetPlan.Json
import AssetPlan.Json.Numeral
import AssetPlan.Text.Hexadecimal

/-! # JSON tokens

The marks, words, numerals and strings of a JSON text. Blanks between tokens are space, tab, line feed
and carriage return. A string holds no control character below the space; an escape `\u` that names
half of a pair is followed by the other half. -/

namespace AssetPlan.Json

/-- A token of a JSON text. -/
inductive Token where
  | openArray
  | closeArray
  | openObject
  | closeObject
  | comma
  | colon
  | value (scalar : Json)

namespace Token

/-- A blank between tokens. -/
def isBlank (c : Char) : Bool := c = ' ' || c = '\t' || c = '\n' || c = '\r'

/-- A character that a numeral may hold. -/
def isNumeralChar (c : Char) : Bool := c.isDigit || c = '-' || c = '+' || c = '.' || c = 'e' || c = 'E'

/-- The token of a mark. -/
def ofMark? : Char → Option Token
  | '[' => some .openArray
  | ']' => some .closeArray
  | '\x7b' => some .openObject
  | '\x7d' => some .closeObject
  | ',' => some .comma
  | ':' => some .colon
  | _ => none

/-- The value that a word names. -/
def ofWord? (word : List Char) : Option Token :=
  if word = "null".toList then some (.value .null)
  else if word = "true".toList then some (.value (.bool true))
  else if word = "false".toList then some (.value (.bool false))
  else none

/-- The character of a one-letter escape. -/
def ofEscape? : Char → Option Char
  | '"' => some '"'
  | '\\' => some '\\'
  | '/' => some '/'
  | 'b' => some '\x08'
  | 'f' => some '\x0c'
  | 'n' => some '\n'
  | 'r' => some '\r'
  | 't' => some '\t'
  | _ => none

/-- The code point of a pair of halves. -/
def pairCode? (high low : Nat) : Option Nat :=
  if 0xd800 ≤ high ∧ high < 0xdc00 ∧ 0xdc00 ≤ low ∧ low < 0xe000 then
    some (0x10000 + (high - 0xd800) * 0x400 + (low - 0xdc00))
  else none

/-- A string from behind its opening quote: its text and what follows the closing quote. -/
def readString? (read : List Char) : List Char → Option (String × List Char)
  | [] => none
  | '"' :: rest => some (String.ofList read.reverse, rest)
  | '\\' :: 'u' :: a :: b :: c :: d :: rest => do
    let unit ← Text.hexNumber? 0 [a, b, c, d]
    match Text.charOfCode? unit with
    | some c => readString? (c :: read) rest
    | none =>
      match rest with
      | '\\' :: 'u' :: a' :: b' :: c' :: d' :: rest' => do
        let low ← Text.hexNumber? 0 [a', b', c', d']
        let c ← Text.charOfCode? (← pairCode? unit low)
        readString? (c :: read) rest'
      | _ => none
  | '\\' :: e :: rest => do readString? ((← ofEscape? e) :: read) rest
  | c :: rest => if c.toNat < 0x20 ∨ c = '\\' then none else readString? (c :: read) rest

/-- The tokens of a text, after those already read. Each step takes at least one character, so the fuel
    is the length of the text. -/
def readAll? (read : List Token) : Nat → List Char → Option (List Token)
  | _, [] => some read.reverse
  | 0, _ :: _ => none
  | fuel + 1, c :: rest =>
    if isBlank c then readAll? read fuel rest
    else if c = '"' then do
      let (text, rest) ← readString? [] rest
      readAll? (.value (.string text) :: read) fuel rest
    else if isNumeralChar c ∧ ! c.isAlpha then do
      let number ← Numeral.read? ((c :: rest).takeWhile isNumeralChar)
      readAll? (.value (.number number) :: read) fuel ((c :: rest).dropWhile isNumeralChar)
    else if c.isAlpha then do
      let word ← ofWord? ((c :: rest).takeWhile Char.isAlpha)
      readAll? (word :: read) fuel ((c :: rest).dropWhile Char.isAlpha)
    else do readAll? ((← ofMark? c) :: read) fuel rest

/-- The tokens of a text. -/
def ofText? (text : List Char) : Option (List Token) := readAll? [] text.length text

end Token
end AssetPlan.Json
