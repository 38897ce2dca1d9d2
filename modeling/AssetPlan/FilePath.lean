import AssetPlan.Text.Split

/-! # File paths

A path is a text with `/` between its parts. Empty parts and `.` name the directory they stand in, and
`..` the one above, so the file name is the last part that is none of them. The extension is what follows
the last dot of a file name, unless that dot is its first character. -/

namespace AssetPlan.FilePath

/-- The path of a name in a directory; the current directory does not show. -/
def within (directory name : String) : String :=
  if directory = "" ∨ directory = "." then name
  else String.ofList (Text.dropEndWhile (· == '/') directory.toList ++ '/' :: name.toList)

/-- The parts of a path. -/
def parts (path : List Char) : List (List Char) := Text.splitBy (· == '/') path

/-- Whether a part of a path stays in its directory. -/
def isStay (part : List Char) : Bool := part == [] || part == ['.']

/-- What leads to the file name, and the file name. -/
def splitName? (path : List Char) : Option (List (List Char) × List Char) :=
  match (parts path).reverse.dropWhile isStay with
  | [] => none
  | name :: before => if name = ['.', '.'] then none else some (before.reverse, name)

/-- Whether nothing stands behind the file name. -/
def endsInName (path : List Char) : Bool := ((parts path).getLast?.map isStay) == some false

/-- Stem and extension of a file name. -/
def splitExtension (name : List Char) : List Char × Option (List Char) :=
  let behind := (name.reverse.takeWhile (· ≠ '.')).reverse
  let before := (name.reverse.dropWhile (· ≠ '.')).tail.reverse
  if before = [] then (name, none) else (before, some behind)

/-- The extension of a path. -/
def extension? (path : String) : Option String :=
  (splitName? path.toList).bind fun (_, name) => (splitExtension name).2.map String.ofList

/-- The path with another extension, which is added if there is none; what stands behind the file name is
    dropped. A path without a file name is kept. A name of two dots and an extension loses it only. -/
def withExtension (path extension : String) : String :=
  match splitName? path.toList with
  | none => path
  | some (before, name) =>
    let (stem, old) := splitExtension name
    let directory := before.flatMap (· ++ ['/'])
    if stem = ['.'] ∧ old.isSome ∧ endsInName path.toList then String.ofList (directory ++ ['.', '.'])
    else String.ofList (directory ++ stem ++ '.' :: extension.toList)

end AssetPlan.FilePath
