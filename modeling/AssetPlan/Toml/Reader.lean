import AssetPlan.Toml.Scalar
import AssetPlan.Toml.Tree

/-! # Reading TOML

A document is read line by line: comments, headers of tables and of lists of tables, and keys with
values. The table of the last header is kept apart until the next header or the end. Arrays and inline
tables nest, and dotted keys reach, less than eighty levels. -/

namespace AssetPlan.Toml

/-- The limit of nesting and of the parts of a dotted key. -/
def depthLimit : Nat := 80

/-- Drops the rest of a comment; nothing if it holds a control character. -/
def dropComment? (cs : List Char) : Option (List Char) :=
  let rest := cs.dropWhile isPlain
  if rest.isEmpty || startsNewline rest then some rest else none

/-- Drops blanks and a comment up to the end of the line or the text. -/
def dropLineEnd? (cs : List Char) : Option (List Char) :=
  match dropBlanks cs with
  | '#' :: rest => (dropComment? rest).map dropNewline
  | [] => some []
  | cs => if startsNewline cs then some (dropNewline cs) else none

/-- Drops blanks, comments and ends of lines. Each step takes a character, so the fuel is the number of
    characters. -/
def dropSpace? : Nat → List Char → Option (List Char)
  | fuel, cs =>
    match fuel, dropBlanks cs with
    | fuel + 1, '#' :: rest => do dropSpace? fuel (← dropComment? rest)
    | fuel + 1, cs => if startsNewline cs then dropSpace? fuel (dropNewline cs) else some cs
    | 0, cs => some cs

/-- Drops blanks, comments and ends of lines. -/
def dropAllSpace? (cs : List Char) : Option (List Char) := dropSpace? cs.length cs

/-- A character of a key without quotes. -/
def isBareKeyChar (c : Char) : Bool := c.isAlphanum || c = '_' || c = '-'

/-- One part of a key. -/
def keyPart? (cs : List Char) : Option (String × List Char) :=
  match cs with
  | '"' :: rest => (basicString? [] rest).map fun (s, rest) => (String.ofList s, rest)
  | '\'' :: rest => (literalString? [] rest).map fun (s, rest) => (String.ofList s, rest)
  | cs =>
    let bare := cs.takeWhile isBareKeyChar
    if bare = [] then none else some (String.ofList bare, cs.dropWhile isBareKeyChar)

/-- The parts of a dotted key, with blanks around them. The fuel is the number of parts allowed. -/
def keyParts? : Nat → List Char → Option (List String × List Char)
  | 0, _ => none
  | fuel + 1, cs => do
    let (part, rest) ← keyPart? (dropBlanks cs)
    match dropBlanks rest with
    | '.' :: rest => do
      let (parts, rest) ← keyParts? fuel rest
      some (part :: parts, rest)
    | rest => some ([part], rest)

/-- A key: the parts before the last one, the last one, and the rest of the text. -/
def key? (cs : List Char) : Option (List String × String × List Char) := do
  let (parts, rest) ← keyParts? (depthLimit - 1) cs
  some (parts.dropLast, parts.getLastD "", rest)

mutual

/-- A value at the start of a text. Each call takes a character, so the fuel is twice the number of
    characters; `depth` is the number of arrays and inline tables around the value. -/
def value? : Nat → (depth : Nat) → List Char → Option (Content × List Char)
  | 0, _, _ => none
  | fuel + 1, depth, cs =>
    match cs with
    | '[' :: rest => if depth + 1 < depthLimit then items? fuel (depth + 1) [] rest else none
    | '\x7b' :: rest =>
      if depth + 1 < depthLimit then
        match dropBlanks rest with
        | '\x7d' :: rest => some (.table [], rest)
        | rest => pairs? fuel (depth + 1) .new rest
      else none
    | cs => scalar? cs

/-- The items of an array up to its closing bracket, after those already read, latest first. -/
def items? : Nat → (depth : Nat) → List Content → List Char → Option (Content × List Char)
  | 0, _, _, _ => none
  | fuel + 1, depth, read, cs => do
    match ← dropAllSpace? cs with
    | ']' :: rest => some (.array read.reverse, rest)
    | cs => do
      let (item, rest) ← value? fuel depth cs
      match ← dropAllSpace? rest with
      | ',' :: rest => items? fuel depth (item :: read) rest
      | ']' :: rest => some (.array (item :: read).reverse, rest)
      | _ => none

/-- The pairs of an inline table up to its closing brace, after those already read. -/
def pairs? : Nat → (depth : Nat) → Table → List Char → Option (Content × List Char)
  | 0, _, _, _ => none
  | fuel + 1, depth, read, cs => do
    let (path, key, rest) ← key? cs
    let (value, rest) ← value? fuel depth (dropBlanks (← Datetime.dropChar? '=' rest))
    let read ← read.insertDotted? path key value
    match dropBlanks rest with
    | ',' :: rest => pairs? fuel depth read rest
    | '\x7d' :: rest => some (read.node.content, rest)
    | _ => none

end

/-- Where the table of the last header belongs. -/
inductive Place where
  /-- Before the first header. -/
  | top
  | table (path : List String) (key : String)
  | item (path : List String) (key : String)

/-- A document while it is read. -/
structure Document where
  root : Table
  place : Place
  current : Table

namespace Document

/-- A document of which nothing is read. -/
def start : Document := ⟨.new, .top, .new⟩

/-- Puts the table of the last header in its place. -/
def settle? (d : Document) : Option Table :=
  match d.place with
  | .top => some d.current
  | .table path key => d.root.close? path key d.current
  | .item path key => d.root.append? path key d.current

/-- Opens the table of a header. -/
def openTable? (d : Document) (path : List String) (key : String) : Option Document := do
  let (root, current) ← (← d.settle?).open? path key
  some ⟨root, .table path key, current⟩

/-- Opens a new table of a list; what the key holds must be such a list. -/
def openItem? (d : Document) (path : List String) (key : String) : Option Document := do
  let root ← d.settle?
  let _ ← root.append? path key .new
  some ⟨root, .item path key, .new⟩

/-- A header, from behind its first bracket. -/
def header? (d : Document) (cs : List Char) : Option (Document × List Char) :=
  match cs with
  | '[' :: rest => do
    let (path, key, rest) ← key? rest
    match rest with
    | ']' :: ']' :: rest => some (← d.openItem? path key, ← dropLineEnd? rest)
    | _ => none
  | cs => do
    let (path, key, rest) ← key? cs
    match rest with
    | ']' :: rest => some (← d.openTable? path key, ← dropLineEnd? rest)
    | _ => none

/-- A key with its value. -/
def pair? (d : Document) (cs : List Char) : Option (Document × List Char) := do
  let (path, key, rest) ← key? cs
  let (value, rest) ← value? (2 * cs.length) 0 (dropBlanks (← Datetime.dropChar? '=' rest))
  let current ← d.current.insertDotted? path key value
  some ({ d with current }, ← dropLineEnd? rest)

/-- All lines. Each takes a character, so the fuel is the number of characters. -/
def lines? : Nat → Document → List Char → Option Document
  | fuel, d, cs =>
    match fuel, dropBlanks cs with
    | _, [] => some d
    | 0, _ :: _ => none
    | fuel + 1, '#' :: rest => do lines? fuel d (← dropLineEnd? ('#' :: rest))
    | fuel + 1, '[' :: rest => do
      let (d, rest) ← d.header? rest
      lines? fuel d rest
    | fuel + 1, cs =>
      if startsNewline cs then lines? fuel d (dropNewline cs)
      else do
        let (d, rest) ← d.pair? cs
        lines? fuel d rest

end Document

/-- The value that a TOML text writes. A byte order mark at the start is skipped. -/
def ofText? (text : List Char) : Option Json := do
  let text := match text with
    | '\ufeff' :: rest => rest
    | text => text
  let root ← (← Document.lines? text.length .start text).settle?
  root.node.content.toJson?

end AssetPlan.Toml
