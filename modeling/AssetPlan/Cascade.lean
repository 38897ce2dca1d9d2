import AssetPlan.Cascade.Toggles
import AssetPlan.Merge
import AssetPlan.Value.Section

/-! # The cascade of environments

The layers of the environments and then that of the invocation are merged over a configuration; later
layers win. Before the first environment a snapshot of the sections is written under `overrides`, where
it stands as an environment of its own. Afterwards the server follows the output directory, and it does
not run in a build that does not go on watching. -/

namespace AssetPlan.Cascade

/-- The environment that holds the sections as they were before the cascade. -/
def snapshotName : String := "_default"

/-- The sections of a configuration other than `overrides`. -/
def snapshot (config : Mapping) : Mapping := config.filter fun e => e.1 ≠ "overrides" && e.2.isMapping

/-- The configuration with the snapshot of its sections, if it has overrides at all. -/
def withSnapshot (config : Mapping) : Except ConfigError Mapping :=
  if config.hasValue "overrides" then
    config.editSection "overrides" fun overrides =>
      .ok (Entries.insert overrides snapshotName (.mapping (snapshot config)))
  else .ok config

/-- The layer of an environment, if one is declared. -/
def layer? (config : Mapping) (environment : String) : Except ConfigError (Option Mapping) :=
  match (Entries.get? config "overrides").bind (·.get? environment) with
  | none => .ok none
  | some .null => .ok none
  | some (.mapping layer) => .ok (some layer)
  | some v => .error (.structural ["overrides", environment] (.ofKind .mapping v))

/-- The configuration with the layer of an environment. -/
def applyEnvironment (config : Mapping) (environment : String) : Except ConfigError Mapping := do
  match ← layer? config environment with
  | none => .ok config
  | some layer => .ok (Mapping.merge .cascade config (reconcileToggles config layer))

/-- The configuration with the layers of all environments. -/
def applyEnvironments (config : Mapping) (environments : List String) : Except ConfigError Mapping := do
  let config ← if environments.isEmpty then .ok config else withSnapshot config
  environments.foldlM applyEnvironment config

/-- The server with the output directory of the configuration. -/
def followPublicPath (config : Mapping) : Except ConfigError Mapping :=
  match config.find? ["paths", "public"] with
  | none => .ok config
  | some path => config.editSection "server" fun server => .ok (Entries.insert server "publicPath" path)

/-- Whether the build goes on watching. -/
def isPersistent (config : Mapping) : Bool := ((Entries.get? config "persistent").bind Value.bool?).getD false

/-- The server stopped, unless the build goes on watching. -/
def stopServer (config : Mapping) : Except ConfigError Mapping :=
  if isPersistent config then .ok config
  else config.editSection "server" fun server => .ok (Entries.insert server "run" (.bool false))

/-- The configuration with all layers: those of the environments in order, then the last one. -/
def apply (config : Mapping) (environments : List String) (last : Mapping) : Except ConfigError Mapping := do
  let config ← applyEnvironments config environments
  let config ← followPublicPath (Mapping.merge .cascade config last)
  stopServer config

end AssetPlan.Cascade
