import AssetPlan.Configuration.Conventions
import AssetPlan.Configuration.Modules
import AssetPlan.Configuration.Npm
import AssetPlan.Configuration.Paths
import AssetPlan.Configuration.Plugins
import AssetPlan.Configuration.Server
import AssetPlan.Routing.Compile

/-! # Configurations

A configuration is the typed reading of a merged tree: every section has its own type, conventions and
routing are compiled, and the tree itself is kept for what the types leave out. An override may have
written any value, so every shape is checked here, the sections in a fixed order. -/

namespace AssetPlan

/-- A finished configuration. -/
structure Configuration where
  /-- The environments that were applied, in order. -/
  environments : List String
  isProduction : Bool
  persistent : Bool
  optimize : Bool
  sourceMaps : Bool
  notifications : Bool
  /-- How often the list of files is read, in milliseconds. -/
  fileListInterval : Nat
  usePolling : Bool
  paths : Paths
  conventions : Conventions
  modules : Modules
  routing : Routing
  plugins : Plugins
  server : Server
  hooks : Mapping
  npm : Npm
  /-- The layers of the environments, with the snapshot if one was taken. -/
  overrides : Mapping
  /-- The tree that the configuration was read from. -/
  tree : Mapping

namespace Configuration

/-- How often the list of files is read. -/
def intervalOf (tree : Mapping) : Except ConfigError Nat :=
  match Entries.get? tree "fileListInterval" with
  | none => .ok 0
  | some v =>
    match v.nat? with
    | some n => .ok n
    | none => .error (.structural ["fileListInterval"] (.misshapen .milliseconds))

/-- The configuration that a merged tree is. -/
def ofTree (environments : List String) (isProduction : Bool) (tree : Mapping) : Reported Configuration := do
  let paths ← Paths.ofFields (← tree.required "paths")
  let routing ← Routing.ofFiles (← tree.required "files") paths.watched
  let conventions ← Conventions.ofFields (← tree.required "conventions")
  let modules ← Modules.ofFields (← tree.required "modules")
  let plugins ← Plugins.ofFields (← tree.required "plugins")
  let server ← Server.ofFields (← tree.required "server")
  let npm ← Npm.ofFields (← tree.required "npm")
  let hooks ← tree.required "hooks"
  let overrides ← tree.required "overrides"
  let fileListInterval ← intervalOf tree
  let usePolling ← (← tree.required "watcher").flag? ["watcher"] "usePolling" false
  let persistent ← tree.flag? [] "persistent" false
  let optimize ← tree.flag? [] "optimize" false
  let sourceMaps ← tree.flag? [] "sourceMaps" true
  let notifications ← tree.flag? [] "notifications" true
  return {
    environments, isProduction, persistent, optimize, sourceMaps, notifications, fileListInterval, usePolling
    paths, conventions, modules, routing, plugins, server, hooks, npm, overrides, tree }

end Configuration
end AssetPlan
