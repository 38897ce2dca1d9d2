import AssetPlan.Regex.Escape
import AssetPlan.Text.Letter

/-! # Reading a regular expression

A regular expression is read from left to right with its open groups on a stack. At most 50 groups may
be open at once, and no part may lie within more than 50 nodes. Groups may be named, once each; flag
groups switch options for the rest of the group around them. Look-around and references back to a group
are refused. -/

namespace AssetPlan.Regex.Syntax

/-- A group that is still open, or what lies around it: the branches and the parts of the last branch
    read so far, latest first. -/
structure Level where
  branches : List Expr
  parts : List Expr

/-- What becomes of an open group. -/
inductive Label where
  /-- The group only holds its parts together. -/
  | plain
  /-- The group is a node of its own. -/
  | numbered (number : Nat) (name : Option String)

/-- The expression of a group around its body. -/
def Label.wrap : Label → Expr → Expr
  | .plain, body => body
  | .numbered number name, body => .group number name body

/-- An open group: what lies around it, the flags there, and what becomes of it. -/
structure OpenGroup where
  outer : Level
  outerFlags : Flags
  label : Label

/-- What has been read so far. -/
structure Progress where
  flags : Flags
  /-- The number of numbered groups. -/
  numbered : Nat
  names : List String
  level : Level
  groups : List OpenGroup

/-- The number of groups that may be open, and of nodes around a part. -/
def nestingLimit : Nat := 50

/-- The limit of the numbers in a repetition. -/
def countLimit : Nat := Nat.pow 2 32

/-- The expression of a level. -/
def Level.expr (level : Level) : Expr :=
  Expr.choice (Expr.sequence level.parts.reverse :: level.branches).reverse

/-- Adds a part. -/
def Progress.push (p : Progress) (part : Expr) : Progress :=
  { p with level := { p.level with parts := part :: p.level.parts } }

/-- Opens a group within the given flags. -/
def Progress.enter? (p : Progress) (flags : Flags) (label : Label) : Option Progress :=
  if p.groups.length < nestingLimit then
    some { p with flags, level := ⟨[], []⟩, groups := ⟨p.level, p.flags, label⟩ :: p.groups }
  else none

/-- Opens the next numbered group. -/
def Progress.enterNumbered? (p : Progress) (name : Option String) : Option Progress :=
  { p with numbered := p.numbered + 1, names := name.toList ++ p.names }.enter? p.flags
    (.numbered (p.numbered + 1) name)

/-- Closes the innermost group. -/
def Progress.leave? (p : Progress) : Option Progress :=
  match p.groups with
  | [] => none
  | group :: groups =>
    let body := p.level.expr
    let p := { p with flags := group.outerFlags, level := group.outer, groups }
    some (p.push (group.label.wrap body))

/-- Replaces the part before a repetition by the repetition of it. -/
def Progress.repeat? (p : Progress) (min : Nat) (max : Option Nat) (greedy : Bool) : Option Progress :=
  match p.level.parts with
  | [] => none
  | part :: parts => some { p with level := { p.level with parts := part.repeated min max greedy :: parts } }

/-- A question mark makes a repetition lazy, or greedy if greed is swapped. -/
def readGreed (flags : Flags) : List Char → Bool × List Char
  | '?' :: rest => (flags.swapGreed, rest)
  | rest => (! flags.swapGreed, rest)

/-- The digits of a number. The fuel is the number of characters. -/
def digits (flags : Flags) : Nat → List Char → List Char × List Char
  | _, [] => ([], [])
  | 0, cs => ([], cs)
  | fuel + 1, c :: rest =>
    if c.isDigit then
      let (more, rest) := digits flags fuel (skip flags rest)
      (c :: more, rest)
    else ([], c :: rest)

/-- Blanks behind a number. The fuel is the number of characters. -/
def trailingBlanks (flags : Flags) : Nat → List Char → List Char
  | fuel + 1, c :: rest => if Text.isBlank c then trailingBlanks flags fuel (skip flags rest) else c :: rest
  | _, cs => cs

/-- A number of a repetition, with blanks around it. -/
def count? (flags : Flags) (cs : List Char) : Option (Nat × List Char) :=
  let cs := cs.dropWhile Text.isBlank
  let (ds, rest) := digits flags cs.length cs
  let value := ds.foldl (fun n c => 10 * n + (c.toNat - '0'.toNat)) 0
  if ds ≠ [] ∧ value < countLimit then some (value, trailingBlanks flags rest.length rest) else none

/-- A repetition in braces, from behind the opening one: how often at least and at most. -/
def counts? (flags : Flags) (cs : List Char) : Option (Nat × Option Nat × List Char) := do
  let (low, rest) ← count? flags (← match skip flags cs with | [] => none | cs => some cs)
  match rest with
  | '\x7d' :: rest => some (low, some low, rest)
  | ',' :: rest =>
    match skip flags rest with
    | '\x7d' :: rest => some (low, none, rest)
    | rest =>
      let (high, rest) ← count? flags rest
      match rest with
      | '\x7d' :: rest => if low ≤ high then some (low, some high, rest) else none
      | _ => none
  | _ => none

/-- A character of a group's name. -/
def isNameChar (first : Bool) (c : Char) : Bool :=
  if first then c = '_' || Text.isLetter c
  else c = '_' || c = '.' || c = '[' || c = ']' || Text.isLetterOrNumber c

/-- The name of a group up to the closing bracket: not empty and not given before. -/
def name? (names : List String) (cs : List Char) : Option (String × List Char) :=
  match cs.dropWhile (· ≠ '>') with
  | [] => none
  | _ :: rest =>
    match cs.takeWhile (· ≠ '>') with
    | [] => none
    | c :: more =>
      let name := String.ofList (c :: more)
      if isNameChar true c && more.all (isNameChar false) && ! names.contains name then some (name, rest) else none

/-- Opens a group or switches flags, from behind the opening bracket. -/
def open? (p : Progress) (cs : List Char) : Option (Progress × List Char) :=
  let named (cs : List Char) : Option (Progress × List Char) := do
    let (name, rest) ← name? p.names cs
    some (← p.enterNumbered? name, rest)
  match skip p.flags cs with
  | '?' :: '=' :: _ => none
  | '?' :: '!' :: _ => none
  | '?' :: '<' :: '=' :: _ => none
  | '?' :: '<' :: '!' :: _ => none
  | '?' :: 'P' :: '<' :: rest => named rest
  | '?' :: '<' :: rest => named rest
  | '?' :: rest => do
    let (flags, closing, after) ← Flags.read? p.flags true false [] rest
    if closing = ':' then (p.enter? flags .plain).map fun p => (p, after)
    else if rest.head? = some ')' then none
    else some ({ p with flags }, after)
  | rest => (p.enterNumbered? none).map fun p => (p, rest)

/-- The expression of the dot. -/
def dot (flags : Flags) : Expr :=
  if flags.dotTakesNewline then .oneOf [⟨0, SymbolSet.lastCode⟩]
  else if flags.anyLineEnd then .oneOf (SymbolSet.complement [⟨10, 10⟩, ⟨13, 13⟩])
  else .oneOf (SymbolSet.complement [⟨10, 10⟩])

/-- The assertion of the caret. -/
def caret (flags : Flags) : Assertion :=
  if flags.multiLine then (if flags.anyLineEnd then .anyLineStart else .lineStart) else .textStart

/-- The assertion of the dollar sign. -/
def dollar (flags : Flags) : Assertion :=
  if flags.multiLine then (if flags.anyLineEnd then .anyLineEnd else .lineEnd) else .textEnd

/-- One element of the notation, from its first character on. -/
def element? (p : Progress) (c : Char) (rest : List Char) : Option (Progress × List Char) :=
  match c with
  | '(' => open? p rest
  | ')' => p.leave?.map fun p => (p, rest)
  | '|' =>
    some ({ p with level := ⟨Expr.sequence p.level.parts.reverse :: p.level.branches, []⟩ }, rest)
  | '[' => (class? p.flags rest).map fun (e, rest) => (p.push e, rest)
  | '?' => let (greedy, rest) := readGreed p.flags rest; (p.repeat? 0 (some 1) greedy).map fun p => (p, rest)
  | '*' => let (greedy, rest) := readGreed p.flags rest; (p.repeat? 0 none greedy).map fun p => (p, rest)
  | '+' => let (greedy, rest) := readGreed p.flags rest; (p.repeat? 1 none greedy).map fun p => (p, rest)
  | '\x7b' => do
    let (low, high, rest) ← counts? p.flags rest
    let (greedy, rest) := readGreed p.flags (skip p.flags rest)
    let p ← p.repeat? low high greedy
    some (p, rest)
  | '\\' => (escape? p.flags rest).map fun (e, rest) => (p.push e, rest)
  | '.' => some (p.push (dot p.flags), rest)
  | '^' => some (p.push (.assertion (caret p.flags)), rest)
  | '$' => some (p.push (.assertion (dollar p.flags)), rest)
  | c => some (p.push (character p.flags c), rest)

/-- All elements. Each takes a character, so the fuel is the number of characters. -/
def elements? (p : Progress) : Nat → List Char → Option Progress
  | fuel, cs =>
    match fuel, skip p.flags cs with
    | _, [] => some p
    | 0, _ :: _ => none
    | fuel + 1, c :: rest => do
      let (p, rest) ← element? p c rest
      elements? p fuel rest

/-- The expression that a text writes. -/
def read? (ignoreCase : Bool) (text : List Char) : Option Expr := do
  let p ← elements? ⟨.initial ignoreCase, 0, [], ⟨[], []⟩, []⟩ text.length text
  match p.groups with
  | [] => if p.level.expr.nesting ≤ nestingLimit then some p.level.expr else none
  | _ :: _ => none

end AssetPlan.Regex.Syntax
