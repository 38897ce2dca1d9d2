import AssetPlan.Defaults.Step
import AssetPlan.FilePath
import AssetPlan.Value.Pattern
import AssetPlan.Value.Watched

/-! # Built-in defaults

The settings that a configuration leaves out, in the order in which they depend on each other: the paths
first, since the output directory and the watched directories lie under the root. What is set is kept;
only the path of the loaded file, the server's output directory and a server that must not run are
written over it. -/

namespace AssetPlan

/-- The values that settings have by default. -/
structure Defaults where
  root : String := "."
  /-- The output directory under the root. -/
  publicDirectory : String := "public"
  /-- The watched directories under the root. -/
  watchedDirectories : List String := ["app", "test", "vendor"]
  /-- The configuration file under the root, without extension. -/
  configName : String := "buildconf"
  /-- The format of modules, for wrapper and definition. -/
  moduleFormat : String := "commonjs"
  /-- What is removed from the name of a module. -/
  nameCleaner : String := "^app/"
  serverPort : UInt16 := 3333
  serverHostname : String := "localhost"
  /-- How often the list of files is read, in milliseconds. -/
  fileListInterval : UInt16 := 65
  deriving DecidableEq, Repr

/-- What an invocation adds to the defaults. -/
structure Invocation where
  /-- The path that the configuration was read from. -/
  configPath : Option String := none
  /-- Whether the build goes on watching. -/
  persistent : Bool := false
  deriving DecidableEq, Repr

namespace Defaults

/-- The paths of assets. -/
def assetsSource : String := "assets[\\\\/]"

/-- The paths that are ignored. -/
def ignoredSources : List String := ["[\\\\/]_", "vendor[\\\\/](node|j?ruby-.+|bundle)[\\\\/]"]

/-- The paths of vendors' files. -/
def vendorSource : String := "(^bower_components|node_modules|vendor)[\\\\/]"

/-- The string at the end of a chain of keys, empty if there is none. -/
def textAt (config : Mapping) (path : List String) : String := ((config.find? path).bind Value.string?).getD ""

/-- A path under the root of a configuration. -/
def underRoot (config : Mapping) (name : String) : String := FilePath.within (textAt config ["paths", "root"]) name

/-- A value that depends on nothing. -/
def constant (v : Value) : Mapping → Except ConfigError Value := fun _ => .ok v

/-- The watched directories as a list, also if one string was given. -/
def watchedList (config : Mapping) : Except ConfigError Value := do
  let directories ← ((config.find? ["paths", "watched"]).getD .null).watched
  .ok (.ofStrings directories)

/-- The steps that fill the paths. -/
def pathSteps (d : Defaults) (invocation : Invocation) : List Step := [
  .openSection [] "paths",
  .fill ["paths"] "root" (constant (.string d.root)),
  .requireText ["paths"] "root",
  .fill ["paths"] "public" fun config => .ok (.string (underRoot config d.publicDirectory)),
  .requireText ["paths"] "public",
  .fill ["paths"] "watched" fun config => .ok (.ofStrings (d.watchedDirectories.map (underRoot config))),
  .write ["paths"] "watched" watchedList,
  match invocation.configPath with
    | some path => .write ["paths"] "config" (constant (.string path))
    | none => .fill ["paths"] "config" fun config => .ok (.string (underRoot config d.configName)),
  .fill ["paths"] "packageConfig" fun config => .ok (.string (underRoot config "package.json")),
  .fill ["paths"] "bowerConfig" fun config => .ok (.string (underRoot config "bower.json")),
  .requireText ["paths"] "config",
  .requireText ["paths"] "packageConfig",
  .requireText ["paths"] "bowerConfig"]

/-- The ignored paths: those of the legacy field, or the built-in ones. -/
def ignoredPatterns (config : Mapping) : Except ConfigError Value :=
  match (config.find? ["paths", "ignored"]).filter (! ·.isNull) with
  | some v => .ok v
  | none => (ignoredSources.mapM (Value.ofSource ["conventions", "ignored"])).map .list

/-- The steps that fill the conventions. -/
def conventionSteps : List Step := [
  .openSection [] "conventions",
  .fill ["conventions"] "assets" fun _ => Value.ofSource ["conventions", "assets"] assetsSource,
  .fill ["conventions"] "ignored" ignoredPatterns,
  .fill ["conventions"] "vendor" fun _ => Value.ofSource ["conventions", "vendor"] vendorSource]

/-- The steps that fill the flags, the watcher and the modules. -/
def buildSteps (d : Defaults) : List Step := [
  .fill [] "notifications" (constant (.bool true)),
  .fill [] "sourceMaps" (constant (.bool true)),
  .fill [] "optimize" (constant (.bool false)),
  .fill [] "fileListInterval" (constant (.ofNat d.fileListInterval.toNat)),
  .openSection [] "plugins",
  .openSection [] "watcher",
  .fill ["watcher"] "usePolling" (constant (.bool false)),
  .openSection [] "modules",
  .fill ["modules"] "wrapper" (constant (.string d.moduleFormat)),
  .fill ["modules"] "definition" (constant (.string d.moduleFormat)),
  .fill ["modules"] "nameCleaner" fun _ => Value.ofSource ["modules", "nameCleaner"] d.nameCleaner,
  .openSection ["modules"] "autoRequire"]

/-- The steps that fill the server, which does not run in a build that does not go on watching. -/
def serverSteps (d : Defaults) (invocation : Invocation) : List Step := [
  .openSection [] "server",
  .write ["server"] "publicPath" fun config => .ok (.string (textAt config ["paths", "public"])),
  .fill ["server"] "base" (constant (.string "")),
  .fill ["server"] "port" (constant (.ofNat d.serverPort.toNat)),
  .fill ["server"] "hostname" (constant (.string d.serverHostname)),
  .fill ["server"] "run" (constant (.bool false))] ++
  if invocation.persistent then [] else [.write ["server"] "run" (constant (.bool false))]

/-- The steps that fill the hooks, the environment of production builds and the packages. -/
def environmentSteps : List Step := [
  .openSection [] "hooks",
  .openSection [] "overrides",
  .openSection ["overrides"] "production",
  .fill ["overrides", "production"] "optimize" (constant (.bool true)),
  .fill ["overrides", "production"] "sourceMaps" (constant (.bool false)),
  .openSection ["overrides", "production"] "plugins",
  .openSection ["overrides", "production", "plugins"] "autoReload",
  .fill ["overrides", "production", "plugins", "autoReload"] "enabled" (constant (.bool false)),
  .openSection [] "npm",
  .fill ["npm"] "enabled" (constant (.bool true)),
  .fill ["npm"] "static" (constant (.list []))]

/-- All steps in order. -/
def steps (d : Defaults) (invocation : Invocation) : List Step :=
  d.pathSteps invocation ++ conventionSteps ++ d.buildSteps ++ d.serverSteps invocation ++ environmentSteps

/-- The configuration with the defaults, as far as it was filled, and the error that ended the filling. -/
def fill (d : Defaults) (invocation : Invocation) (config : Mapping) : Mapping × Option ConfigError :=
  Step.run config (d.steps invocation)

/-- The configuration with the defaults. -/
def apply (d : Defaults) (invocation : Invocation) (config : Mapping) : Except ConfigError Mapping :=
  match d.fill invocation config with
  | (config, none) => .ok config
  | (_, some e) => .error e

end Defaults
end AssetPlan
