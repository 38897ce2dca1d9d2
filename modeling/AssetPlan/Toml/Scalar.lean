import AssetPlan.Text.Hexadecimal
import AssetPlan.Toml.Content

/-! # TOML scalars

Strings of the four kinds, numbers, booleans, dates and times at the start of a text. Numbers without a
JSON form become null. -/

namespace AssetPlan.Toml

/-- A blank within a line. -/
def isBlank (c : Char) : Bool := c = ' ' || c = '\t'

/-- A character that may stand in a comment or a string as it is. -/
def isPlain (c : Char) : Bool := c = '\t' || (0x20 ≤ c.toNat && c.toNat != 0x7f)

/-- Drops blanks. -/
def dropBlanks (cs : List Char) : List Char := cs.dropWhile isBlank

/-- Whether the text starts with the end of a line. -/
def startsNewline : List Char → Bool
  | '\n' :: _ => true
  | '\r' :: '\n' :: _ => true
  | _ => false

/-- Drops the end of a line, if the text starts with one. -/
def dropNewline : List Char → List Char
  | '\n' :: rest => rest
  | '\r' :: '\n' :: rest => rest
  | cs => cs

/-- The character of a one-letter escape. -/
def escapedChar? : Char → Option Char
  | 'b' => some '\x08'
  | 't' => some '\t'
  | 'n' => some '\n'
  | 'f' => some '\x0c'
  | 'r' => some '\r'
  | '"' => some '"'
  | '\\' => some '\\'
  | _ => none

/-- The character of a hexadecimal escape. -/
def hexChar? (digits : List Char) : Option Char := do Text.charOfCode? (← Text.hexNumber? 0 digits)

/-- A basic string of one line, from behind its opening quote. -/
def basicString? (read : List Char) : List Char → Option (List Char × List Char)
  | [] => none
  | '"' :: rest => some (read.reverse, rest)
  | '\\' :: 'u' :: a :: b :: c :: d :: rest => do basicString? ((← hexChar? [a, b, c, d]) :: read) rest
  | '\\' :: 'U' :: a :: b :: c :: d :: e :: f :: g :: h :: rest => do
    basicString? ((← hexChar? [a, b, c, d, e, f, g, h]) :: read) rest
  | '\\' :: e :: rest => do basicString? ((← escapedChar? e) :: read) rest
  | c :: rest => if isPlain c ∧ c ≠ '\\' then basicString? (c :: read) rest else none

/-- A literal string of one line, from behind its opening quote. -/
def literalString? (read : List Char) : List Char → Option (List Char × List Char)
  | [] => none
  | '\'' :: rest => some (read.reverse, rest)
  | c :: rest => if isPlain c then literalString? (c :: read) rest else none

/-- Whether blanks and the end of a line follow, as behind a backslash that joins lines. -/
def joinsLines (cs : List Char) : Bool := startsNewline (dropBlanks cs)

/-- The quotes, up to two, that belong to a string although three more follow, and the rest. -/
def closingQuotes (quote : Char) (read rest : List Char) : List Char × List Char :=
  match rest with
  | a :: b :: more =>
    if a = quote ∧ b = quote then ((quote :: quote :: read).reverse, more)
    else if a = quote then ((quote :: read).reverse, b :: more)
    else (read.reverse, rest)
  | [a] => if a = quote then ((quote :: read).reverse, []) else (read.reverse, rest)
  | [] => (read.reverse, [])

/-- A basic string of several lines, from behind its opening quotes. Behind a backslash at the end of a
    line, blanks and ends of lines are skipped (`joining`). -/
def multilineBasic? (joining : Bool) (read : List Char) : List Char → Option (List Char × List Char)
  | [] => none
  | '"' :: '"' :: '"' :: rest => some (closingQuotes '"' read rest)
  | '\\' :: 'u' :: a :: b :: c :: d :: rest => do
    multilineBasic? false ((← hexChar? [a, b, c, d]) :: read) rest
  | '\\' :: 'U' :: a :: b :: c :: d :: e :: f :: g :: h :: rest => do
    multilineBasic? false ((← hexChar? [a, b, c, d, e, f, g, h]) :: read) rest
  | '\\' :: e :: rest =>
    if joinsLines (e :: rest) then multilineBasic? true read (e :: rest)
    else do multilineBasic? false ((← escapedChar? e) :: read) rest
  | '\r' :: '\n' :: rest =>
    if joining then multilineBasic? true read rest else multilineBasic? false ('\n' :: read) rest
  | c :: rest =>
    if joining ∧ (isBlank c ∨ c = '\n') then multilineBasic? true read rest
    else if (isPlain c ∨ c = '\n') ∧ c ≠ '\\' then multilineBasic? false (c :: read) rest
    else none

/-- A literal string of several lines, from behind its opening quotes. -/
def multilineLiteral? (read : List Char) : List Char → Option (List Char × List Char)
  | [] => none
  | '\'' :: '\'' :: '\'' :: rest => some (closingQuotes '\'' read rest)
  | '\r' :: '\n' :: rest => multilineLiteral? ('\n' :: read) rest
  | c :: rest => if isPlain c ∨ c = '\n' then multilineLiteral? (c :: read) rest else none

/-- A string of any kind. -/
def string? (cs : List Char) : Option (List Char × List Char) :=
  match cs with
  | '"' :: '"' :: '"' :: rest => multilineBasic? false [] (dropNewline rest)
  | '"' :: rest => basicString? [] rest
  | '\'' :: '\'' :: '\'' :: rest => multilineLiteral? [] (dropNewline rest)
  | '\'' :: rest => literalString? [] rest
  | _ => none

/-- Digits, each two of them with at most one underscore between: the digits and the rest. -/
def digitRun (isDigit : Char → Bool) : List Char → List Char × List Char
  | '_' :: d :: rest =>
    if isDigit d then let (ds, rest) := digitRun isDigit rest; (d :: ds, rest) else ([], '_' :: d :: rest)
  | d :: rest => if isDigit d then let (ds, rest) := digitRun isDigit rest; (d :: ds, rest) else ([], d :: rest)
  | [] => ([], [])

/-- Digits that begin with a digit. -/
def digits? (isDigit : Char → Bool) : List Char → Option (List Char × List Char)
  | [] => none
  | d :: rest => if isDigit d then some (digitRun isDigit (d :: rest)) else none

/-- A sign at the start: whether it is a minus, and the rest. -/
def sign : List Char → Bool × List Char
  | '-' :: rest => (true, rest)
  | '+' :: rest => (false, rest)
  | cs => (false, cs)

/-- Decimal digits without a leading zero. -/
def wholePart? : List Char → Option (List Char × List Char)
  | '0' :: rest => some (['0'], rest)
  | cs => digits? Char.isDigit cs

/-- The exponent part, if there is one. -/
def exponent? (cs : List Char) : Option (Int × List Char) :=
  match cs with
  | e :: rest =>
    if e = 'e' ∨ e = 'E' then do
      let (negative, rest) := sign rest
      let (ds, rest) ← digits? Char.isDigit rest
      let value := Text.decimalValue ds
      some (if negative then -(value : Int) else value, rest)
    else none
  | [] => none

/-- The number of a double; positive infinity is refused, and negative infinity has no JSON form. -/
def ofDouble? (d : Double) : Option Json :=
  if d.isFinite then some (.number (.double d)) else if d.isNegative then some .null else none

/-- The number of an integer of 64 bits. -/
def ofInteger? (negative : Bool) (magnitude : Nat) : Option Json :=
  if negative then (if magnitude ≤ Nat.pow 2 63 then some (.number (.integer (-magnitude))) else none)
  else if magnitude < Nat.pow 2 63 then some (.number (.integer magnitude)) else none

/-- A decimal number. -/
def decimal? (cs : List Char) : Option (Json × List Char) := do
  let (negative, cs) := sign cs
  let (whole, cs) ← wholePart? cs
  match cs with
  | '.' :: rest =>
    let (fraction, rest) ← digits? Char.isDigit rest
    let (e, rest) := (exponent? rest).getD (0, rest)
    some (← ofDouble? (.ofDecimal negative (Text.decimalValue (whole ++ fraction)) (e - fraction.length)), rest)
  | cs =>
    match exponent? cs with
    | some (e, rest) => some (← ofDouble? (.ofDecimal negative (Text.decimalValue whole) e), rest)
    | none => some (← ofInteger? negative (Text.decimalValue whole), cs)

/-- A number in another base. -/
def based? (base : Nat) (cs : List Char) : Option (Json × List Char) := do
  let isDigit (c : Char) : Bool := (Text.hexDigit? c).any (· < base)
  let (ds, rest) ← digits? isDigit cs
  let value := ds.foldl (fun n c => base * n + (Text.hexDigit? c).getD 0) 0
  some (← ofInteger? false value, rest)

/-- Drops a word. -/
def dropWord? (word : List Char) (cs : List Char) : Option (List Char) :=
  if word.isPrefixOf cs then some (cs.drop word.length) else none

/-- A number, in decimal or another base. -/
def number? (cs : List Char) : Option (Json × List Char) :=
  match cs with
  | '0' :: 'x' :: rest => based? 16 rest
  | '0' :: 'o' :: rest => based? 8 rest
  | '0' :: 'b' :: rest => based? 2 rest
  | cs =>
    let unsigned := (sign cs).2
    match dropWord? "inf".toList unsigned, dropWord? "nan".toList unsigned with
    | some rest, _ => some (.null, rest)
    | none, some rest => some (.null, rest)
    | none, none => decimal? cs

/-- A scalar at the start of a text. -/
def scalar? (cs : List Char) : Option (Content × List Char) :=
  match cs with
  | [] => none
  | c :: _ =>
    if c = '"' ∨ c = '\'' then (string? cs).map fun (s, rest) => (.plain (.string (String.ofList s)), rest)
    else if c = 't' then (dropWord? "true".toList cs).map fun rest => (.plain (.bool true), rest)
    else if c = 'f' then (dropWord? "false".toList cs).map fun rest => (.plain (.bool false), rest)
    else
      match Datetime.read? cs with
      | some (d, rest) => some (.datetime d, rest)
      | none => (number? cs).map fun (value, rest) => (.plain value, rest)

end AssetPlan.Toml
