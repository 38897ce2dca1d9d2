/-! # Regular expressions

Expressions over symbols, which are natural numbers: the code points of a text or the bytes of a path.
`Expr.nullable` says whether an expression can match without taking a symbol, and `Expr.nesting` how deep
its parts nest. -/

namespace AssetPlan.Regex

/-- The symbols from `first` to `last`. -/
structure SymbolRange where
  first : Nat
  last : Nat
  deriving DecidableEq, Repr

/-- A union of ranges. -/
abbrev SymbolSet := List SymbolRange

namespace SymbolSet

/-- Whether a symbol lies in one of the ranges. -/
def contains (set : SymbolSet) (symbol : Nat) : Bool :=
  set.any fun r => r.first ≤ symbol && symbol ≤ r.last

/-- The set of one symbol. -/
def single (symbol : Nat) : SymbolSet := [⟨symbol, symbol⟩]

/-- The set of the characters from one to another. -/
def chars (first last : Char) : SymbolSet := [⟨first.toNat, last.toNat⟩]

/-- Puts a range into ascending ranges that neither meet nor touch, joining those it meets or touches. -/
def place (range : SymbolRange) : SymbolSet → SymbolSet
  | [] => [range]
  | r :: rest =>
    if r.last + 1 < range.first then r :: place range rest
    else if range.last + 1 < r.first then range :: r :: rest
    else place ⟨min range.first r.first, max range.last r.last⟩ rest

/-- The same set as ascending ranges that neither meet nor touch. -/
def normalize (set : SymbolSet) : SymbolSet := set.foldl (fun done r => place r done) []

/-- The largest code point. -/
def lastCode : Nat := 0x10ffff

/-- The gaps between ascending ranges, from a symbol on. -/
def gaps (start : Nat) : SymbolSet → SymbolSet
  | [] => if start ≤ lastCode then [⟨start, lastCode⟩] else []
  | r :: rest =>
    if start < r.first then ⟨start, r.first - 1⟩ :: gaps (r.last + 1) rest else gaps (r.last + 1) rest

/-- All code points outside of a set. -/
def complement (set : SymbolSet) : SymbolSet := gaps 0 (normalize set)

/-- The other case of the letters in a range: the lower-case ones if there are any, the upper-case ones
    otherwise. -/
def otherCase? (r : SymbolRange) : Option SymbolRange :=
  if r.first ≤ 'z'.toNat ∧ 'a'.toNat ≤ r.last then
    some ⟨max r.first 'a'.toNat - 32, min r.last 'z'.toNat - 32⟩
  else if r.first ≤ 'Z'.toNat ∧ 'A'.toNat ≤ r.last then
    some ⟨max r.first 'A'.toNat + 32, min r.last 'Z'.toNat + 32⟩
  else none

/-- The set with the other case of its letters. -/
def foldCase (set : SymbolSet) : SymbolSet :=
  let ranges := normalize set
  normalize (ranges ++ ranges.filterMap otherCase?)

end SymbolSet

/-- A condition on a place between symbols. -/
inductive Assertion where
  | textStart
  | textEnd
  /-- The start of the text, or behind a line feed. -/
  | lineStart
  /-- The end of the text, or before a line feed. -/
  | lineEnd
  /-- As `lineStart`, where carriage return, line feed and the two together end a line. -/
  | anyLineStart
  /-- As `lineEnd`, where carriage return, line feed and the two together end a line. -/
  | anyLineEnd
  | wordBoundary
  | noWordBoundary
  | wordStart
  | wordEnd
  /-- No word character before. -/
  | wordStartHalf
  /-- No word character after. -/
  | wordEndHalf
  deriving DecidableEq, Repr

namespace Assertion

/-- A letter, a digit or an underscore of ASCII. -/
def isWordSymbol (symbol : Nat) : Bool :=
  ('0'.toNat ≤ symbol && symbol ≤ '9'.toNat) || ('A'.toNat ≤ symbol && symbol ≤ 'Z'.toNat) ||
    ('a'.toNat ≤ symbol && symbol ≤ 'z'.toNat) || symbol == '_'.toNat

/-- Whether the condition holds between two symbols, of which either may be missing. -/
def holds (before after : Option Nat) : Assertion → Bool
  | .textStart => before.isNone
  | .textEnd => after.isNone
  | .lineStart => before.isNone || before == some 10
  | .lineEnd => after.isNone || after == some 10
  | .anyLineStart => before.isNone || before == some 10 || (before == some 13 && after != some 10)
  | .anyLineEnd => after.isNone || after == some 13 || (after == some 10 && before != some 13)
  | .wordBoundary => before.any isWordSymbol != after.any isWordSymbol
  | .noWordBoundary => before.any isWordSymbol == after.any isWordSymbol
  | .wordStart => ! before.any isWordSymbol && after.any isWordSymbol
  | .wordEnd => before.any isWordSymbol && ! after.any isWordSymbol
  | .wordStartHalf => ! before.any isWordSymbol
  | .wordEndHalf => ! after.any isWordSymbol

end Assertion

/-- A regular expression. -/
inductive Expr where
  | empty
  /-- One symbol. -/
  | literal (symbol : Nat)
  /-- One symbol of a set. -/
  | oneOf (set : SymbolSet)
  | assertion (a : Assertion)
  /-- `body` at least `min` times and, if `max` is given, at most so often; as often as possible first
      if `greedy`, as seldom as possible first otherwise. -/
  | repetition (body : Expr) (min : Nat) (max : Option Nat) (greedy : Bool)
  /-- A group with its number, counted from one in the order of the opening brackets. -/
  | group (number : Nat) (name : Option String) (body : Expr)
  | concat (parts : List Expr)
  | alternation (branches : List Expr)

namespace Expr

/-- One part after the other, without a node for none or one. -/
def sequence : List Expr → Expr
  | [] => .empty
  | [e] => e
  | parts => .concat parts

/-- The first of the branches that leads to a match, without a node for one. -/
def choice : List Expr → Expr
  | [e] => e
  | branches => .alternation branches

/-- A repetition; never and exactly once need no node. -/
def repeated (body : Expr) (min : Nat) (max : Option Nat) (greedy : Bool) : Expr :=
  if min = 0 ∧ max = some 0 then .empty
  else if min = 1 ∧ max = some 1 then body
  else .repetition body min max greedy

mutual

/-- Whether the expression can match without taking a symbol. -/
def nullable : Expr → Bool
  | .empty | .assertion _ => true
  | .literal _ | .oneOf _ => false
  | .repetition body min _ _ => min == 0 || nullable body
  | .group _ _ body => nullable body
  | .concat parts => nullableAll parts
  | .alternation branches => nullableAny branches
termination_by structural e => e

/-- Whether all expressions can match without taking a symbol. -/
def nullableAll : List Expr → Bool
  | [] => true
  | e :: rest => nullable e && nullableAll rest
termination_by structural es => es

/-- Whether some expression can match without taking a symbol. -/
def nullableAny : List Expr → Bool
  | [] => false
  | e :: rest => nullable e || nullableAny rest
termination_by structural es => es

end

mutual

/-- How many nodes lie around the innermost one. -/
def nesting : Expr → Nat
  | .empty | .assertion _ | .literal _ | .oneOf _ => 0
  | .repetition body _ _ _ => nesting body + 1
  | .group _ _ body => nesting body + 1
  | .concat parts => nestingMax parts + 1
  | .alternation branches => nestingMax branches + 1
termination_by structural e => e

/-- The largest nesting among expressions. -/
def nestingMax : List Expr → Nat
  | [] => 0
  | e :: rest => max (nesting e) (nestingMax rest)
termination_by structural es => es

end

end Expr
end AssetPlan.Regex
