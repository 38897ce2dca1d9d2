import AssetPlan.Regex.Expr
import AssetPlan.Text.Blank
import AssetPlan.Text.Hexadecimal

/-! # Flags, escapes and classes of a regular expression

The parts of the notation that take more than one character: what an escape stands for, and the set
that a class in brackets writes. In verbose notation blanks and comments may stand between characters.
Classes are not nested and have no intersection or difference; escapes know ASCII classes only. -/

namespace AssetPlan.Regex

/-- The options that a flag group switches. -/
structure Flags where
  ignoreCase : Bool
  /-- `^` and `$` are starts and ends of lines. -/
  multiLine : Bool
  /-- `.` takes a line feed too. -/
  dotTakesNewline : Bool
  /-- Repetitions are lazy, and greedy with a question mark. -/
  swapGreed : Bool
  /-- A carriage return ends a line too. -/
  anyLineEnd : Bool
  verbose : Bool
  deriving DecidableEq, Repr

namespace Flags

/-- No option but the given one. -/
def initial (ignoreCase : Bool) : Flags := ⟨ignoreCase, false, false, false, false, false⟩

/-- Switches the option that a letter names. The letter `u` is known and switches nothing: symbols are
    code points with it and without it. -/
def set? (flags : Flags) (on : Bool) : Char → Option Flags
  | 'i' => some { flags with ignoreCase := on }
  | 'm' => some { flags with multiLine := on }
  | 's' => some { flags with dotTakesNewline := on }
  | 'U' => some { flags with swapGreed := on }
  | 'R' => some { flags with anyLineEnd := on }
  | 'x' => some { flags with verbose := on }
  | 'u' => some flags
  | _ => none

/-- Reads the letters of a flag group up to its colon or bracket, which it gives back. No letter occurs
    twice, there is one minus sign at most, and a letter follows it. -/
def read? (flags : Flags) (on afterMinus : Bool) (seen : List Char) :
    List Char → Option (Flags × Char × List Char)
  | [] => none
  | c :: rest =>
    if c = ':' ∨ c = ')' then if afterMinus then none else some (flags, c, rest)
    else if c = '-' then if on then read? flags false true seen rest else none
    else if c ∈ seen then none
    else do read? (← flags.set? on c) on false (c :: seen) rest

end Flags

namespace Syntax

mutual

/-- Drops blanks and comments. -/
def dropSpace : List Char → List Char
  | [] => []
  | c :: rest => if Text.isBlank c then dropSpace rest else if c = '#' then dropComment rest else c :: rest

/-- Drops the rest of a comment and the blanks and comments behind it. -/
def dropComment : List Char → List Char
  | [] => []
  | c :: rest => if c = '\n' then dropSpace rest else dropComment rest

end

/-- Drops what verbose notation allows between characters. -/
def skip (flags : Flags) (cs : List Char) : List Char := if flags.verbose then dropSpace cs else cs

/-- A character, in both cases if case is ignored. -/
def character (flags : Flags) (c : Char) : Expr :=
  if flags.ignoreCase then
    match SymbolSet.otherCase? ⟨c.toNat, c.toNat⟩ with
    | some other => .oneOf (SymbolSet.normalize [⟨c.toNat, c.toNat⟩, other])
    | none => .literal c.toNat
  else .literal c.toNat

/-- The classes of characters with a name. -/
def namedClass? (name : String) : Option SymbolSet :=
  let lower := SymbolSet.chars 'a' 'z'
  let upper := SymbolSet.chars 'A' 'Z'
  let digit := SymbolSet.chars '0' '9'
  match name with
  | "alnum" => some (digit ++ upper ++ lower)
  | "alpha" => some (upper ++ lower)
  | "ascii" => some [⟨0, 0x7f⟩]
  | "blank" => some [⟨9, 9⟩, ⟨32, 32⟩]
  | "cntrl" => some [⟨0, 0x1f⟩, ⟨0x7f, 0x7f⟩]
  | "digit" => some digit
  | "graph" => some (.chars '!' '~')
  | "lower" => some lower
  | "print" => some (.chars ' ' '~')
  | "punct" => some (.chars '!' '/' ++ .chars ':' '@' ++ .chars '[' (Char.ofNat 96) ++ .chars '\x7b' '~')
  | "space" => some [⟨9, 13⟩, ⟨32, 32⟩]
  | "upper" => some upper
  | "word" => some (digit ++ upper ++ .chars '_' '_' ++ lower)
  | "xdigit" => some (digit ++ .chars 'A' 'F' ++ .chars 'a' 'f')
  | _ => none

/-- The class of a one-letter escape; the upper-case letter names the other characters. -/
def letterClass? : Char → Option SymbolSet
  | 'd' => namedClass? "digit"
  | 's' => namedClass? "space"
  | 'w' => namedClass? "word"
  | 'D' => (namedClass? "digit").map SymbolSet.complement
  | 'S' => (namedClass? "space").map SymbolSet.complement
  | 'W' => (namedClass? "word").map SymbolSet.complement
  | _ => none

/-- The control character of a one-letter escape. -/
def controlEscape? : Char → Option Char
  | 'a' => some '\x07'
  | 'f' => some '\x0c'
  | 't' => some '\t'
  | 'n' => some '\n'
  | 'r' => some '\r'
  | 'v' => some '\x0b'
  | _ => none

/-- The assertion of a one-letter escape. -/
def assertionEscape? : Char → Option Assertion
  | 'A' => some .textStart
  | 'z' => some .textEnd
  | 'b' => some .wordBoundary
  | 'B' => some .noWordBoundary
  | '<' => some .wordStart
  | '>' => some .wordEnd
  | _ => none

/-- The assertion that a name in braces behind `\b` stands for. -/
def namedBoundary? (name : List Char) : Option Assertion :=
  if name = "start".toList then some .wordStart
  else if name = "end".toList then some .wordEnd
  else if name = "start-half".toList then some .wordStartHalf
  else if name = "end-half".toList then some .wordEndHalf
  else none

/-- A character that may be escaped to stand for itself: ASCII without letters, digits and the two
    angle brackets. -/
def isEscapable (c : Char) : Bool := c.toNat < 0x80 && ! c.isAlphanum && c != '<' && c != '>'

/-- Up to `count` hexadecimal digits: those read and what follows. -/
def hexDigits? (flags : Flags) : Nat → List Char → Option (List Char × List Char)
  | 0, cs => some ([], cs)
  | _ + 1, [] => none
  | n + 1, c :: rest => do
    let _ ← Text.hexDigit? c
    let (digits, rest) ← hexDigits? flags n (skip flags rest)
    some (c :: digits, rest)

/-- Hexadecimal digits up to the closing brace. The fuel is the number of characters. -/
def bracedHexDigits? (flags : Flags) : Nat → List Char → Option (List Char × List Char)
  | _, [] => none
  | 0, _ :: _ => none
  | fuel + 1, c :: rest =>
    if c = '\x7d' then some ([], skip flags rest)
    else do
      let _ ← Text.hexDigit? c
      let (digits, rest) ← bracedHexDigits? flags fuel (skip flags rest)
      some (c :: digits, rest)

/-- The character that a hexadecimal escape stands for, from behind its letter: digits in braces, or as
    many as the letter asks for. -/
def hexEscape? (flags : Flags) (count : Nat) (cs : List Char) : Option (Expr × List Char) := do
  let (digits, rest) ← match skip flags cs with
    | '\x7b' :: rest => bracedHexDigits? flags cs.length (skip flags rest)
    | cs => hexDigits? flags count cs
  if digits = [] then none
  else
    let code ← Text.hexNumber? 0 digits
    let c ← Text.charOfCode? code
    some (character flags c, rest)

/-- Letters and hyphens of a name in braces. The fuel is the number of characters. -/
def boundaryName (flags : Flags) : Nat → List Char → List Char × List Char
  | _, [] => ([], [])
  | 0, cs => ([], cs)
  | fuel + 1, c :: rest =>
    if c.isAlpha || c = '-' then
      let (name, rest) := boundaryName flags fuel (skip flags rest)
      (c :: name, rest)
    else ([], c :: rest)

/-- The assertion of `\b`, from behind the letter: a brace that a letter or a hyphen follows names
    another one, and any other brace is a repetition. -/
def boundary? (flags : Flags) (cs : List Char) : Option (Expr × List Char) :=
  match cs with
  | '\x7b' :: rest =>
    match skip flags rest with
    | [] => none
    | c :: rest' =>
      if c.isAlpha || c = '-' then
        match boundaryName flags cs.length (c :: rest') with
        | (name, '\x7d' :: after) => (namedBoundary? name).map fun a => (.assertion a, after)
        | _ => none
      else some (.assertion .wordBoundary, cs)
  | _ => some (.assertion .wordBoundary, cs)

/-- What an escape stands for, from behind its backslash. -/
def escape? (flags : Flags) : List Char → Option (Expr × List Char)
  | [] => none
  | c :: rest =>
    match c with
    | 'x' => hexEscape? flags 2 rest
    | 'u' => hexEscape? flags 4 rest
    | 'U' => hexEscape? flags 8 rest
    | 'b' => boundary? flags rest
    | c =>
      match letterClass? c, controlEscape? c, assertionEscape? c with
      | some set, _, _ => some (.oneOf (SymbolSet.normalize set), rest)
      | none, some control, _ => some (character flags control, rest)
      | none, none, some a => some (.assertion a, rest)
      | none, none, none => if isEscapable c then some (character flags c, rest) else none

/-- One member of a class: an escape or a character. -/
def member? (flags : Flags) : List Char → Option (Expr × List Char)
  | [] => none
  | '\\' :: rest => escape? flags rest
  | c :: rest => some (.literal c.toNat, rest)

/-- The symbols of a member that stands alone. -/
def memberSet? : Expr → Option SymbolSet
  | .literal symbol => some (.single symbol)
  | .oneOf set => some set
  | _ => none

/-- The symbol of a member at an end of a range. -/
def rangeEnd? : Expr → Option Nat
  | .literal symbol => some symbol
  | _ => none

/-- The next character behind a hyphen, past blanks and one comment sign. -/
def peek (flags : Flags) (cs : List Char) : Option Char :=
  if flags.verbose then
    match cs.dropWhile Text.isBlank with
    | '#' :: rest => (rest.dropWhile Text.isBlank).head?
    | cs => cs.head?
  else cs.head?

/-- A member or a range of two members. A hyphen before the closing bracket or before another hyphen
    makes no range. -/
def range? (flags : Flags) (cs : List Char) : Option (SymbolSet × List Char) := do
  let (first, rest) ← member? flags cs
  match skip flags rest with
  | [] => none
  | '-' :: behind =>
    if peek flags behind = some ']' ∨ peek flags behind = some '-' then
      some (← memberSet? first, '-' :: behind)
    else
      let (last, rest) ← member? flags (skip flags behind)
      let low ← rangeEnd? first
      let high ← rangeEnd? last
      if low ≤ high then some ([⟨low, high⟩], rest) else none
  | rest => some (← memberSet? first, rest)

/-- A named class between `[:` and `:]`, from behind the opening bracket. -/
def bracketClass? (cs : List Char) : Option (SymbolSet × List Char) :=
  match cs with
  | ':' :: rest =>
    let (negated, rest) := match rest with
      | '^' :: rest => (true, rest)
      | rest => (false, rest)
    match rest.dropWhile (· ≠ ':') with
    | ':' :: ']' :: after =>
      (namedClass? (String.ofList (rest.takeWhile (· ≠ ':')))).map fun set =>
        (if negated then SymbolSet.complement set else set, after)
    | _ => none
  | _ => none

/-- The members of a class up to its closing bracket, after those already read. Each step takes a
    character, so the fuel is the number of characters. -/
def members? (flags : Flags) (read : SymbolSet) : Nat → List Char → Option (SymbolSet × List Char)
  | 0, _ => none
  | fuel + 1, cs =>
    match skip flags cs with
    | [] => none
    | ']' :: rest => some (read, rest)
    | '[' :: rest => do
      let (set, rest) ← bracketClass? rest
      members? flags (read ++ set) fuel rest
    | '&' :: '&' :: _ => none
    | '-' :: '-' :: _ => none
    | '~' :: '~' :: _ => none
    | cs => do
      let (set, rest) ← range? flags cs
      members? flags (read ++ set) fuel rest

/-- Hyphens at the start of a class stand for themselves. The fuel is the number of characters. -/
def leadingHyphens (flags : Flags) : Nat → List Char → Bool × List Char
  | fuel + 1, '-' :: rest => (true, (leadingHyphens flags fuel (skip flags rest)).2)
  | _, cs => (false, cs)

/-- A class, from behind its opening bracket. A closing bracket at the start stands for itself. -/
def class? (flags : Flags) (cs : List Char) : Option (Expr × List Char) := do
  let (negated, cs) := match skip flags cs with
    | '^' :: rest => (true, skip flags rest)
    | cs => (false, cs)
  let (hyphen, cs) := leadingHyphens flags cs.length cs
  let start := if hyphen then SymbolSet.chars '-' '-' else []
  let (start, cs) := match cs with
    | ']' :: rest => if hyphen then (start, cs) else (SymbolSet.chars ']' ']', skip flags rest)
    | cs => (start, cs)
  let (set, rest) ← members? flags start (cs.length + 1) cs
  let set := if flags.ignoreCase then SymbolSet.foldCase set else SymbolSet.normalize set
  some (.oneOf (if negated then SymbolSet.complement set else set), rest)

end Syntax
end AssetPlan.Regex
