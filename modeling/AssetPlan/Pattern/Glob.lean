import AssetPlan.Regex.Program

/-! # Globs

A glob is a path with wildcards: `?` and `*` stay within a directory, `**` between separators spans any
number of them, brackets hold a class of characters and braces a choice of globs. It is matched byte by
byte against the whole path, with backslashes read as separators. A text that is no well-formed glob
accepts itself alone, and a well-formed one accepts its own text too. -/

namespace AssetPlan

/-- An element of a glob. -/
inductive GlobToken where
  | literal (c : Char)
  /-- One byte but a separator. -/
  | anyByte
  /-- Any bytes but separators. -/
  | withinDirectory
  /-- Nothing, a separator, or anything up to a separator, at the start. -/
  | leadingDirectories
  /-- A separator and anything behind it, at the end. -/
  | everythingBelow
  /-- A separator, or two with anything between. -/
  | innerDirectories
  | oneOf (negated : Bool) (ranges : List (Char × Char))
  | choice (branches : List (List GlobToken))

namespace Glob

/-- An open choice: what stands before it and its finished branches, latest first. -/
structure OpenChoice where
  before : List GlobToken
  branches : List (List GlobToken)

/-- What has been read so far: the tokens of the current branch, latest first, and the open choices. -/
structure Progress where
  tokens : List GlobToken
  choices : List OpenChoice

/-- Adds a token. -/
def Progress.push (p : Progress) (token : GlobToken) : Progress := { p with tokens := token :: p.tokens }

/-- The ranges of a class with one more end or character. -/
def extendRanges? (inRange : Bool) (c : Char) : List (Char × Char) → Option (List (Char × Char))
  | [] => some [(c, c)]
  | (low, high) :: rest =>
    if inRange then if low ≤ c then some ((low, c) :: rest) else none
    else some ((c, c) :: (low, high) :: rest)

/-- The members of a class up to its closing bracket, latest first. A bracket or a hyphen at the start
    and a hyphen at the end stand for themselves. -/
def classRanges? (first inRange : Bool) (ranges : List (Char × Char)) :
    List Char → Option (List (Char × Char) × List Char)
  | [] => none
  | ']' :: rest =>
    if first then classRanges? false inRange ((']', ']') :: ranges) rest
    else some (if inRange then ('-', '-') :: ranges else ranges, rest)
  | '-' :: rest =>
    if first then classRanges? false inRange (('-', '-') :: ranges) rest
    else if inRange then do classRanges? false false (← extendRanges? true '-' ranges) rest
    else classRanges? false true ranges rest
  | c :: rest => do classRanges? false false (← extendRanges? inRange c ranges) rest

/-- A class, from behind its opening bracket. -/
def class? (cs : List Char) : Option (GlobToken × List Char) :=
  let (negated, cs) := match cs with
    | '!' :: rest => (true, rest)
    | '^' :: rest => (true, rest)
    | cs => (false, cs)
  (classRanges? true false [] cs).map fun (ranges, rest) => (.oneOf negated ranges.reverse, rest)

/-- Two stars that do not stand alone between separators. -/
def twoStars (p : Progress) : Progress := (p.push .withinDirectory).push .withinDirectory

/-- Puts a token that spans directories in the place of the separator before it. Right behind another
    spanning token that one is kept. -/
def span (p : Progress) (token : GlobToken) : Progress :=
  match p.tokens with
  | .leadingDirectories :: _ => p
  | .everythingBelow :: _ => p
  | _ :: tokens => { p with tokens := token :: tokens }
  | [] => { p with tokens := [token] }

/-- One or more stars, from behind the first one. Two stars span directories at the start of a branch
    before a separator or the end of the glob, and behind a separator before a separator or an end. -/
def stars (p : Progress) (before : Option Char) (cs : List Char) : Progress × List Char :=
  match cs with
  | '*' :: rest =>
    if p.tokens.isEmpty then
      match rest with
      | [] => (p.push .leadingDirectories, [])
      | '/' :: rest => (p.push .leadingDirectories, rest)
      | rest => (twoStars p, rest)
    else if before ≠ some '/' ∧ (p.choices.isEmpty ∨ (before ≠ some ',' ∧ before ≠ some '\x7b')) then
      (twoStars p, rest)
    else match rest with
      | [] => (span p .everythingBelow, [])
      | '/' :: rest => (span p .innerDirectories, rest)
      | c :: rest =>
        if (c = ',' ∨ c = '\x7d') ∧ ! p.choices.isEmpty then (span p .everythingBelow, c :: rest)
        else (twoStars p, c :: rest)
  | rest => (p.push .withinDirectory, rest)

/-- One element, from its first character on; `before` is the character before that. -/
def element? (p : Progress) (before : Option Char) (c : Char) (rest : List Char) :
    Option (Progress × List Char) :=
  match c with
  | '?' => some (p.push .anyByte, rest)
  | '*' => some (stars p before rest)
  | '[' => (class? rest).map fun (token, rest) => (p.push token, rest)
  | '\x7b' => some (⟨[], ⟨p.tokens, []⟩ :: p.choices⟩, rest)
  | '\x7d' =>
    match p.choices with
    | [] => none
    | choice :: choices =>
      some (⟨.choice (p.tokens.reverse :: choice.branches).reverse :: choice.before, choices⟩, rest)
  | ',' =>
    match p.choices with
    | [] => some (p.push (.literal ','), rest)
    | choice :: choices => some (⟨[], ⟨choice.before, p.tokens.reverse :: choice.branches⟩ :: choices⟩, rest)
  | '\\' =>
    match rest with
    | [] => none
    | c :: rest => some (p.push (.literal c), rest)
  | c => some (p.push (.literal c), rest)

/-- The last character that an element took. -/
def lastTaken (c : Char) (rest after : List Char) : Char :=
  ((c :: rest).take ((c :: rest).length - after.length)).getLastD c

/-- All elements. Each takes a character, so the fuel is the number of characters. -/
def elements? (p : Progress) (before : Option Char) : Nat → List Char → Option Progress
  | _, [] => some p
  | 0, _ :: _ => none
  | fuel + 1, c :: rest => do
    let (p, after) ← element? p before c rest
    elements? p (some (lastTaken c rest after)) fuel after

/-- The tokens of a well-formed glob. -/
def tokens? (source : String) : Option (List GlobToken) := do
  let p ← elements? ⟨[], []⟩ none source.length source.toList
  if p.choices.isEmpty then some p.tokens.reverse else none

open Regex

/-- Any byte. -/
def byte : Expr := .oneOf [⟨0, 255⟩]

/-- Any byte but a separator. -/
def byteWithinDirectory : Expr := .oneOf [⟨0, '/'.toNat - 1⟩, ⟨'/'.toNat + 1, 255⟩]

/-- A separator. -/
def separator : Expr := .literal '/'.toNat

/-- An expression any number of times. -/
def anyTimes (e : Expr) : Expr := .repetition e 0 none true

/-- The bytes of a character. -/
def bytesOf (c : Char) : List Nat := (String.singleton c).toUTF8.toList.map UInt8.toNat

/-- The bytes of a class: a range of characters reaches from the last byte of its first character to the
    first byte of its last one, and the bytes before and after count singly. -/
def classBytes (range : Char × Char) : SymbolSet :=
  let low := bytesOf range.1
  let high := bytesOf range.2
  if range.1 = range.2 then low.map fun b => ⟨b, b⟩
  else
    (low.dropLast.map fun b => ⟨b, b⟩) ++ [⟨low.getLastD 0, high.headD 0⟩] ++ (high.tail.map fun b => ⟨b, b⟩)

/-- Whether an expression is the empty one. -/
def isEmpty : Expr → Bool
  | .empty => true
  | _ => false

mutual

/-- The expression of a token. A choice leaves out its empty branches. -/
def exprOf : GlobToken → Expr
  | .literal c => Expr.sequence ((bytesOf c).map .literal)
  | .anyByte => byteWithinDirectory
  | .withinDirectory => anyTimes byteWithinDirectory
  | .leadingDirectories => .alternation [.repetition separator 0 (some 1) true, .concat [anyTimes byte, separator]]
  | .everythingBelow => .concat [separator, anyTimes byte]
  | .innerDirectories => .alternation [separator, .concat [separator, anyTimes byte, separator]]
  | .oneOf negated ranges =>
    let set := ranges.flatMap classBytes
    .oneOf (if negated then SymbolSet.complement set else set)
  | .choice branches =>
    match exprsOf branches with
    | [] => .empty
    | es => .alternation es
termination_by structural t => t

/-- The expression of tokens one after the other. -/
def exprOfAll : List GlobToken → Expr
  | [] => .empty
  | t :: rest =>
    let first := exprOf t
    let others := exprOfAll rest
    if isEmpty first then others else if isEmpty others then first else .concat [first, others]
termination_by structural ts => ts

/-- The expressions of the branches that are not empty. -/
def exprsOf : List (List GlobToken) → List Expr
  | [] => []
  | b :: rest =>
    let first := exprOfAll b
    if isEmpty first then exprsOf rest else first :: exprsOf rest
termination_by structural bs => bs

end

/-- The expression of a whole glob. Two stars alone take every path. -/
def exprOfGlob : List GlobToken → Expr
  | [.leadingDirectories] => anyTimes byte
  | tokens => exprOfAll tokens

/-- The path with separators for backslashes. -/
def withSeparators (path : String) : String := path.map fun c => if c = '\\' then '/' else c

/-- Whether a path, with separators for backslashes, matches a well-formed glob. -/
def matchesWhole (tokens : List GlobToken) (path : String) : Bool :=
  (Program.ofExpr (.concat [.assertion .textStart, exprOfGlob tokens, .assertion .textEnd])).matchesIn
    (path.toUTF8.toList.map UInt8.toNat)

/-- Whether a glob accepts a path. -/
def accepts (source path : String) : Bool :=
  let path := withSeparators path
  path == source || (tokens? source).any fun tokens => matchesWhole tokens path

end Glob
end AssetPlan
