import AssetPlan.Text.Hexadecimal

/-! # Report documents

A document of lists and named fields, and its text as JSON: two blanks for every level, one item to a
line, and nothing between the brackets of an empty list. -/

namespace AssetPlan

/-- A document. -/
inductive Document where
  | flag (value : Bool)
  | count (value : Nat)
  | text (value : String)
  | list (items : List Document)
  | fields (entries : List (String × Document))

namespace Document

/-- A list of texts. -/
def texts (values : List String) : Document := .list (values.map .text)

/-- A character between quotes. -/
def escape (c : Char) : List Char :=
  if c = '"' then ['\\', '"']
  else if c = '\\' then ['\\', '\\']
  else if c = '\x08' then ['\\', 'b']
  else if c = '\x0c' then ['\\', 'f']
  else if c = '\n' then ['\\', 'n']
  else if c = '\r' then ['\\', 'r']
  else if c = '\t' then ['\\', 't']
  else if c.toNat < 0x20 then ['\\', 'u', '0', '0'] ++ Text.hexByte (UInt8.ofNat c.toNat)
  else [c]

/-- A text between quotes. -/
def quote (s : String) : List Char := '"' :: s.toList.flatMap escape ++ ['"']

/-- A new line at a level. -/
def newLine (level : Nat) : List Char := '\n' :: List.replicate (2 * level) ' '

mutual

/-- The text of a document at a level. -/
def chars (level : Nat) : Document → List Char
  | .flag true => "true".toList
  | .flag false => "false".toList
  | .count n => Nat.toDigits 10 n
  | .text s => quote s
  | .list [] => ['[', ']']
  | .list (d :: rest) =>
    '[' :: newLine (level + 1) ++ chars (level + 1) d ++ itemChars (level + 1) rest ++ newLine level ++ [']']
  | .fields [] => ['\x7b', '\x7d']
  | .fields ((name, d) :: rest) =>
    '\x7b' :: newLine (level + 1) ++ quote name ++ [':', ' '] ++ chars (level + 1) d ++
      fieldChars (level + 1) rest ++ newLine level ++ ['\x7d']
termination_by structural d => d

/-- The items that follow the first one of a list. -/
def itemChars (level : Nat) : List Document → List Char
  | [] => []
  | d :: rest => ',' :: newLine level ++ chars level d ++ itemChars level rest
termination_by structural ds => ds

/-- The fields that follow the first one. -/
def fieldChars (level : Nat) : List (String × Document) → List Char
  | [] => []
  | (name, d) :: rest =>
    ',' :: newLine level ++ quote name ++ [':', ' '] ++ chars level d ++ fieldChars level rest
termination_by structural ds => ds

end

/-- The text of a document. -/
def render (d : Document) : String := String.ofList (chars 0 d)

end Document
end AssetPlan
