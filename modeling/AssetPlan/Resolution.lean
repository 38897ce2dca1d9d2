import AssetPlan.Cascade
import AssetPlan.Configuration
import AssetPlan.Defaults
import AssetPlan.Legacy
import AssetPlan.Options
import AssetPlan.Source

/-! # Resolutions

From a tree as it was read to a finished configuration: legacy fields are migrated, defaults filled, the
layers of the environments and of the invocation merged, and the result is read by types. Any error ends
the resolution; advice is collected along the way. -/

namespace AssetPlan

/-- A finished configuration with the advice on it, and where it was read from. -/
structure Resolution where
  configuration : Configuration
  diagnostics : List Diagnostic
  source : Option Source

namespace Resolution

/-- The merged tree of a project: migrated, filled with defaults, and with all layers. -/
def merged (defaults : Defaults) (options : Options) (config : Mapping) : Reported Mapping := do
  let config ← Legacy.check config
  let config ← defaults.apply ⟨options.configPath, options.persistent⟩ config
  Cascade.apply config options.environments options.layer

/-- The configuration of a project. -/
def configurationOf (defaults : Defaults) (options : Options) (config : Mapping) : Reported Configuration := do
  let tree ← merged defaults options config
  Configuration.ofTree options.environments options.isProduction tree

/-- The resolution of a tree. -/
def ofTree (defaults : Defaults) (options : Options) (tree : Value) : Except ConfigError Resolution :=
  match tree with
  | .mapping config =>
    if Mapping.hasValue config "files" then
      let reported := configurationOf defaults options config
      reported.result.map fun configuration => ⟨configuration, reported.diagnostics, none⟩
    else .error .notProject
  | v => .error (.notMapping v.kind)

/-- The options with the path of the loaded file, unless they have one. -/
def withLoadedPath (options : Options) (path : String) : Options :=
  { options with configPath := options.configPath.orElse fun _ => some path }

/-- The resolution of a file. -/
def ofFile (files : FileSystem) (path : String) (options : Options) : Except ConfigError Resolution := do
  let loaded ← Source.load files path
  let resolution ← ofTree {} (withLoadedPath options loaded.source.path) loaded.value
  .ok { resolution with source := some loaded.source }

/-- The resolution of the first configuration file that a path without extension stands for. -/
def ofProject (files : FileSystem) (base : String) (options : Options) : Except ConfigError Resolution := do
  ofFile files (← Source.locate files base) options

end Resolution
end AssetPlan
