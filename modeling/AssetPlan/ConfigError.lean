import AssetPlan.Value

/-! # Configuration errors

What ends a resolution without a result. A load error says that no configuration could be read from a
file; any other error says that what was read is no valid configuration. -/

namespace AssetPlan

/-- Why a file could not be read. -/
inductive ReadFault where
  | missing
  | directory
  | notDirectory
  | nameTooLong
  /-- The name holds a null character. -/
  | nullInName
  /-- Any other reason, in the words of the operating system. -/
  | other (reason : String)
  deriving DecidableEq, Repr

/-- The operating system's words. -/
def ReadFault.message : ReadFault → String
  | .missing => "No such file or directory (os error 2)"
  | .directory => "Is a directory (os error 21)"
  | .notDirectory => "Not a directory (os error 20)"
  | .nameTooLong => "File name too long (os error 36)"
  | .nullInName => "file name contained an unexpected NUL byte"
  | .other reason => reason

/-- A notation in which a configuration can be written. -/
inductive Format where
  | toml
  | json
  deriving DecidableEq, Repr

/-- The file extension of a format. -/
def Format.extension : Format → String
  | .toml => "toml"
  | .json => "json"

/-- The formats in the order in which files are looked for. -/
def Format.all : List Format := [.toml, .json]

/-- Why the bytes of a file are no configuration. -/
inductive ParseFault where
  | encoding
  | extension
  | malformed (format : Format)
  deriving DecidableEq, Repr

/-- The text of a fault. -/
def ParseFault.message : ParseFault → String
  | .encoding => "invalid UTF-8"
  | .extension =>
    "unsupported extension, expected one of: " ++ ", ".intercalate (Format.all.map Format.extension)
  | .malformed .toml => "TOML parse error"
  | .malformed .json => "JSON parse error"

/-- The shape that a setting must have. -/
inductive Shape where
  | mapping
  | string
  | boolean
  | regex
  | strings
  | stringOrStrings
  | pattern
  | outputs
  | moduleFormat
  | pluginNames
  | pluginNameOrNames
  | moduleNames
  | moduleNameOrNames
  | port
  | milliseconds
  deriving DecidableEq, Repr

/-- The name of a shape in messages. -/
def Shape.name : Shape → String
  | .mapping => "a mapping"
  | .string => "a string"
  | .boolean => "a boolean"
  | .regex => "a regex"
  | .strings => "a list of strings"
  | .stringOrStrings => "a string or list of strings"
  | .pattern => "a string, regex, predicate or list of patterns"
  | .outputs => "an output path or a mapping of output paths to patterns"
  | .moduleFormat => "\"commonjs\", \"amd\" or false"
  | .pluginNames => "a list of plugin names"
  | .pluginNameOrNames => "a plugin name or list of names"
  | .moduleNames => "a list of module names"
  | .moduleNameOrNames => "a module name or list of module names"
  | .port => "a port number"
  | .milliseconds => "a number of milliseconds"

/-- Why a setting has the wrong shape. -/
inductive Fault where
  /-- The setting has another shape, and the message says what was found. -/
  | found (wanted : Shape) (what : String)
  /-- The setting has another shape. -/
  | misshapen (wanted : Shape)
  /-- A list of strings holds something else. -/
  | strayEntry (kind : Kind)
  | missing
  | emptyList
  | invalidRegex
  deriving DecidableEq, Repr

/-- The text of a fault. -/
def Fault.message : Fault → String
  | .found wanted what => "expected " ++ wanted.name ++ ", got " ++ what
  | .misshapen wanted => "expected " ++ wanted.name
  | .strayEntry kind => "expected a list of strings, found " ++ kind.name ++ " entry"
  | .missing => "missing"
  | .emptyList => "must not be empty"
  | .invalidRegex => "invalid regular expression"

/-- A value of another kind than the wanted shape has. -/
def Fault.ofKind (wanted : Shape) (v : Value) : Fault := .found wanted v.kind.name

/-- What ends a resolution. A key is the chain of the keys that lead to the rejected value. -/
inductive ConfigError where
  | unreadable (path : String) (reason : ReadFault)
  | unparsable (path : String) (reason : ParseFault)
  | notFound (tried : List String)
  | notMapping (found : Kind)
  | notProject
  | structural (key : List String) (fault : Fault)
  | pattern (key : List String) (fault : InvalidRegex)
  deriving DecidableEq, Repr

namespace ConfigError

/-- The text of a key in messages. -/
def keyText (key : List String) : String := ".".intercalate key

/-- The text of an error. -/
def message : ConfigError → String
  | .unreadable path reason => "failed to read " ++ path ++ ": " ++ reason.message
  | .unparsable path reason => "failed to parse " ++ path ++ ": " ++ reason.message
  | .notFound tried => "no configuration file found (tried " ++ ", ".intercalate tried ++ ")"
  | .notMapping found => "configuration must be a mapping, got " ++ found.name
  | .notProject => "not a valid project: configuration has no 'files' section"
  | .structural key fault => "invalid config." ++ keyText key ++ ": " ++ fault.message
  | .pattern key fault => "invalid pattern in config." ++ keyText key ++ ": " ++ fault.message

/-- Whether the configuration could not be loaded at all. -/
def isLoadError : ConfigError → Bool
  | .unreadable _ _ | .unparsable _ _ | .notFound _ => true
  | _ => false

/-- The exit code for a configuration that could not be loaded. -/
def loadExitCode : Nat := 2

/-- The exit code for a configuration that is not valid. -/
def invalidExitCode : Nat := 1

/-- The exit code of an error. -/
def exitCode (e : ConfigError) : Nat := if e.isLoadError then loadExitCode else invalidExitCode

end ConfigError
end AssetPlan
