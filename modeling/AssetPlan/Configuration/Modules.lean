import AssetPlan.ConfigError

/-! # The `modules` section

How scripts are wrapped and defined as modules, how the name of a module is made from its path, and
which modules a bundle requires by itself. -/

namespace AssetPlan

/-- A way to wrap or to define modules. -/
inductive ModuleFormat where
  | commonjs
  | amd
  /-- Modules are left as they are. -/
  | disabled
  deriving DecidableEq, Repr

namespace ModuleFormat

/-- The name of a format. -/
def name : ModuleFormat → String
  | .commonjs => "commonjs"
  | .amd => "amd"
  | .disabled => "false"

/-- What a message says in place of a format. -/
def found : Value → String
  | .string s => "\"" ++ s ++ "\""
  | .bool true => "true"
  | .bool false => "false"
  | v => v.kind.name

/-- The format that a value names. -/
def ofValue (key : List String) : Value → Except ConfigError ModuleFormat
  | .string "commonjs" => .ok .commonjs
  | .string "amd" => .ok .amd
  | .bool false => .ok .disabled
  | v => .error (.structural key (.found .moduleFormat (found v)))

end ModuleFormat

/-- The settings of modules. -/
structure Modules where
  wrapper : ModuleFormat
  definition : ModuleFormat
  /-- What is removed from the path of a module. -/
  nameCleaner : Option Regex
  /-- The modules that a bundle requires when it loads. -/
  autoRequire : Entries String (List String)

namespace Modules

/-- The format under a key. -/
def format (fields : Mapping) (key : String) : Except ConfigError ModuleFormat :=
  match Entries.get? fields key with
  | some v => ModuleFormat.ofValue ["modules", key] v
  | none => .error (.structural ["modules", key] .missing)

/-- The text between slashes, if it stands between two. -/
def betweenSlashes : List Char → List Char
  | '/' :: rest => if rest.getLast? = some '/' then rest.dropLast else '/' :: rest
  | text => text

/-- The regular expression of a name cleaner. -/
def cleanerOf : Value → Except ConfigError (Option Regex)
  | .null => .ok none
  | .regex r => .ok (some r)
  | .string s =>
    match Regex.ofSource? (String.ofList (betweenSlashes s.toList)) false with
    | some r => .ok (some r)
    | none => .error (.structural ["modules", "nameCleaner"] .invalidRegex)
  | v => .error (.structural ["modules", "nameCleaner"] (.ofKind .regex v))

/-- The modules that one bundle requires. -/
def requiredModules (entry : String × Value) : Except ConfigError (String × List String) :=
  match entry.2.strings? with
  | some names => .ok (entry.1, names)
  | none => .error (.structural ["modules", "autoRequire", entry.1] (.misshapen .moduleNameOrNames))

/-- The modules that bundles require. -/
def autoRequireOf : Value → Except ConfigError (Entries String (List String))
  | .null => .ok []
  | .mapping bundles => bundles.mapM requiredModules
  | v => .error (.structural ["modules", "autoRequire"] (.ofKind .mapping v))

/-- The settings in a section. -/
def ofFields (fields : Mapping) : Except ConfigError Modules := do
  let wrapper ← format fields "wrapper"
  let definition ← format fields "definition"
  let nameCleaner ← cleanerOf ((Entries.get? fields "nameCleaner").getD .null)
  let autoRequire ← autoRequireOf ((Entries.get? fields "autoRequire").getD .null)
  .ok ⟨wrapper, definition, nameCleaner, autoRequire⟩

/-- The name of the module at a path. -/
def cleanName (m : Modules) (path : String) : String :=
  let path := Glob.withSeparators path
  match m.nameCleaner with
  | some r => r.removeFirst path
  | none => path

end Modules
end AssetPlan
