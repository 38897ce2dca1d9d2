import AssetPlan.Value.Section
import AssetPlan.Value.Watched

/-! # The `paths` section

The directories and files of a project. The names under which the configuration file may stand are
derived from `paths.config`, with or without its extension. -/

namespace AssetPlan

/-- The paths of a project. -/
structure Paths where
  root : String
  publicPath : String
  /-- The directories with sources. -/
  watched : List String
  /-- The configuration file, with or without an extension. -/
  config : String
  packageConfig : String
  bowerConfig : String
  deriving DecidableEq, Repr

namespace Paths

/-- The paths in a section. -/
def ofFields (fields : Mapping) : Except ConfigError Paths := do
  let root ← fields.text? ["paths"] "root"
  let publicPath ← fields.text? ["paths"] "public"
  let watched ← match Entries.get? fields "watched" with
    | some v => v.watched
    | none => .error (.structural Value.watchedKey .missing)
  let config ← fields.text? ["paths"] "config"
  let packageConfig ← fields.text? ["paths"] "packageConfig"
  let bowerConfig ← fields.text? ["paths"] "bowerConfig"
  .ok ⟨root, publicPath, watched, config, packageConfig, bowerConfig⟩

/-- The text without an ending. -/
def withoutEnding? (text : List Char) (ending : List Char) : Option (List Char) :=
  if ending.isSuffixOf text then some (text.take (text.length - ending.length)) else none

/-- The configuration file without the extension of a format. -/
def stem (p : Paths) : String :=
  match Format.all.findSome? fun f => withoutEnding? p.config.toList ('.' :: f.extension.toList) with
  | some stem => String.ofList stem
  | none => p.config

/-- The files that may hold the configuration. -/
def possibleConfigFiles (p : Paths) : List String := Format.all.map fun f => p.stem ++ "." ++ f.extension

/-- All files with settings of the project. -/
def allConfigFiles (p : Paths) : List String := [p.packageConfig, p.bowerConfig] ++ p.possibleConfigFiles

end Paths
end AssetPlan
