import AssetPlan.FilePath
import AssetPlan.FileSystem

/-! # File trees

A directory tree in memory and the file system that it is, seen from its root. Every part of a path but
the last must be a directory. What lies above the root or at absolute paths is outside: directories in
which nothing is found. -/

namespace AssetPlan

/-- A file or a directory. -/
inductive FileTree where
  | file (bytes : List UInt8)
  | directory (entries : List (String × FileTree))

namespace FileTree

/-- Where a path has led so far. -/
inductive Place where
  /-- A node of the tree with the directories above it, the nearest first. -/
  | inside (node : FileTree) (above : List FileTree)
  | outside

/-- The greatest length of a part of a path, in bytes. -/
def maxPart : Nat := 255

/-- The least length of a path that is too long, in bytes. -/
def pathLimit : Nat := 4096

/-- Whether a part of a path is too long. -/
def isTooLong (part : List Char) : Bool := maxPart < (String.ofList part).utf8ByteSize

/-- The place that one part of a path leads to. -/
def enter (place : Place) (part : List Char) : Except ReadFault Place :=
  match place with
  | .inside (.file _) _ => .error .notDirectory
  | .inside (.directory entries) above =>
    if FilePath.isStay part then .ok place
    else if part = ['.', '.'] then
      match above with
      | [] => .ok .outside
      | parent :: rest => .ok (.inside parent rest)
    else if isTooLong part then .error .nameTooLong
    else
      match Entries.get? entries (String.ofList part) with
      | none => .error .missing
      | some node => .ok (.inside node (.directory entries :: above))
  | .outside =>
    if FilePath.isStay part ∨ part = ['.', '.'] then .ok .outside
    else if isTooLong part then .error .nameTooLong
    else .error .missing

/-- The place that a path leads to. -/
def find (root : FileTree) (path : String) : Except ReadFault Place :=
  if path = "" then .error .missing
  else if path.toList.contains '\x00' then .error .nullInName
  else if pathLimit ≤ path.utf8ByteSize then .error .nameTooLong
  else (FilePath.parts path.toList).foldlM enter (if path.toList.head? = some '/' then .outside else .inside root [])

/-- Whether a path is a file. -/
def isFile (root : FileTree) (path : String) : Bool :=
  match find root path with
  | .ok (.inside (.file _) _) => true
  | _ => false

/-- The bytes of the file at a path. -/
def read (root : FileTree) (path : String) : Except ReadFault (List UInt8) :=
  match find root path with
  | .ok (.inside (.file bytes) _) => .ok bytes
  | .ok _ => .error .directory
  | .error fault => .error fault

/-- The file system that a tree is. -/
def fileSystem (root : FileTree) : FileSystem := ⟨root.isFile, root.read⟩

/-- No files. -/
def empty : FileTree := .directory []

/-- The entries of a directory; a file has none. -/
def entries : FileTree → List (String × FileTree)
  | .file _ => []
  | .directory entries => entries

/-- Changes the node at the end of a chain of names; directories on the way are made. -/
def modifyAt : List String → (FileTree → FileTree) → FileTree → FileTree
  | [], f, node => f node
  | name :: rest, f, node =>
    .directory (Entries.insert node.entries name (modifyAt rest f ((Entries.get? node.entries name).getD empty)))

/-- The names of a path that stays below the directory it starts in. -/
def names (path : String) : List String :=
  ((FilePath.parts path.toList).filter (! FilePath.isStay ·)).map String.ofList

/-- Writes a file. -/
def withFile (root : FileTree) (path : String) (bytes : List UInt8) : FileTree :=
  modifyAt (names path) (fun _ => .file bytes) root

/-- Makes a directory. -/
def withDirectory (root : FileTree) (path : String) : FileTree := modifyAt (names path) id root

end FileTree
end AssetPlan
