import AssetPlan.Digest
import AssetPlan.FilePath
import AssetPlan.FileSystem
import AssetPlan.Json.Reader
import AssetPlan.Toml.Reader
import AssetPlan.Value.Json

/-! # Configuration files

A configuration file is found by a path without extension, read, and parsed in the format that its
extension names. The formats are tried in one order everywhere. -/

namespace AssetPlan

namespace Format

/-- The format that the extension of a path names. -/
def ofPath? (path : String) : Option Format :=
  (FilePath.extension? path).bind fun extension => all.find? fun f => f.extension == extension

/-- The value that a text writes in a format. -/
def read? : Format → String → Option Value
  | .json, text => (Json.ofText? Json.fileDepth text.toList).map Value.ofJson
  | .toml, text => (Toml.ofText? text.toList).map Value.ofJson

end Format

/-- The text that bytes encode in UTF-8. -/
def textOfBytes? (bytes : List UInt8) : Option String := String.fromUTF8? ⟨bytes.toArray⟩

/-- Where a configuration came from: the path of its file and the digest of the file's bytes. -/
structure Source where
  path : String
  digest : String
  deriving DecidableEq, Repr

/-- A configuration as it was read from a file. -/
structure Loaded where
  value : Value
  source : Source

namespace Source

/-- The files that a path without extension may stand for, in the order in which they are tried. -/
def candidates (base : String) : List String := Format.all.map fun f => FilePath.withExtension base f.extension

/-- The first candidate that is a file. -/
def locate (files : FileSystem) (base : String) : Except ConfigError String :=
  match (candidates base).find? files.isFile with
  | some path => .ok path
  | none => .error (.notFound (candidates base))

/-- The value that the bytes of a file write. -/
def parse (path : String) (bytes : List UInt8) : Except ConfigError Value :=
  match textOfBytes? bytes with
  | none => .error (.unparsable path .encoding)
  | some text =>
    match Format.ofPath? path with
    | none => .error (.unparsable path .extension)
    | some format =>
      match format.read? text with
      | none => .error (.unparsable path (.malformed format))
      | some v => .ok v

/-- The configuration in a file. -/
def load (files : FileSystem) (path : String) : Except ConfigError Loaded :=
  match files.read path with
  | .error fault => .error (.unreadable path fault)
  | .ok bytes => (parse path bytes).map fun v => ⟨v, ⟨path, Digest.ofBytes bytes⟩⟩

end Source
end AssetPlan
