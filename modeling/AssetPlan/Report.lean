import AssetPlan.Report.Document
import AssetPlan.Resolution

/-! # Reports

What a resolution shows of its configuration: the routing table by descriptions of its matchers, the
settings that a reader asks for, and all diagnostics. The summary counts the bundles of the table. -/

namespace AssetPlan

/-- The report of a resolution. -/
structure Report where
  source : Option Source
  environments : List String
  production : Bool
  persistent : Bool
  optimize : Bool
  sourceMaps : Bool
  paths : Paths
  server : Server
  wrapper : ModuleFormat
  definition : ModuleFormat
  autoRequire : Entries String (List String)
  npm : Npm
  /-- Conventions with the descriptions of their matchers. -/
  conventions : Entries String String
  /-- By asset type, entry and output path the descriptions of the matchers. -/
  routes : Entries String (Entries String (Entries String String))
  /-- By asset type the bundles that receive the helper code of plugins. -/
  pluginHelpers : Entries String (List String)
  on : List String
  off : List String
  only : List String
  diagnostics : List Diagnostic

namespace Report

/-- The name of the form of a report. -/
def schema : String := "buildconf/resolution@1"

/-- The descriptions of bundles. -/
def describeBundles (bundles : Bundles) : Entries String String :=
  bundles.map fun (output, matcher) => (output, matcher.describe)

/-- The descriptions of a routing table. -/
def describeRouting (r : Routing) : Entries String (Entries String (Entries String String)) :=
  r.types.map fun (type, routes) =>
    (type.name, routes.entries.map fun (entry, bundles) => (entry, describeBundles bundles))

/-- The report of a resolution. -/
def ofResolution (r : Resolution) : Report :=
  let c := r.configuration
  { source := r.source
    environments := c.environments
    production := c.isProduction
    persistent := c.persistent
    optimize := c.optimize
    sourceMaps := c.sourceMaps
    paths := c.paths
    server := c.server
    wrapper := c.modules.wrapper
    definition := c.modules.definition
    autoRequire := c.modules.autoRequire
    npm := c.npm
    conventions := c.conventions.matchers.map fun (name, matcher) => (name, matcher.describe)
    routes := describeRouting c.routing
    pluginHelpers := c.routing.types.map fun (type, routes) => (type.name, routes.pluginHelpers)
    on := c.plugins.on
    off := c.plugins.off
    only := c.plugins.only
    diagnostics := r.diagnostics }

/-- The number of bundles in the routing table. -/
def bundleCount (r : Report) : Nat :=
  ((r.routes.flatMap fun (_, entries) => entries).map fun (_, bundles) => bundles.length).foldl (· + ·) 0

/-- The configuration in a few words. -/
def summary (r : Report) : String :=
  let environments := if r.environments.isEmpty then "none" else ", ".intercalate r.environments
  let warnings :=
    if r.diagnostics.isEmpty then "" else ", " ++ Nat.repr r.diagnostics.length ++ " warning(s)"
  "config OK: environments [" ++ environments ++ "], " ++ Nat.repr r.bundleCount ++
    " output bundle(s), public path '" ++ r.paths.publicPath ++ "'" ++ warnings

/-- A table of documents. -/
def table {α : Type} (f : α → Document) (m : Entries String α) : Document := .fields (m.map fun (k, v) => (k, f v))

/-- Where the configuration was read from. -/
def sourceDocument (s : Source) : Document := .fields [("path", .text s.path), ("sha256", .text s.digest)]

/-- The paths of a project. -/
def pathsDocument (p : Paths) : Document := .fields [
  ("root", .text p.root),
  ("public", .text p.publicPath),
  ("watched", .texts p.watched),
  ("config", .text p.config),
  ("packageConfig", .text p.packageConfig),
  ("bowerConfig", .text p.bowerConfig),
  ("possibleConfigFiles", .texts p.possibleConfigFiles),
  ("allConfigFiles", .texts p.allConfigFiles)]

/-- The development server. -/
def serverDocument (s : Server) : Document := .fields [
  ("publicPath", .text s.publicPath),
  ("base", .text s.base),
  ("port", .count s.port.toNat),
  ("hostname", .text s.hostname),
  ("run", .flag s.run)]

/-- One diagnostic. -/
def diagnosticDocument (d : Diagnostic) : Document :=
  .fields [("kind", .text d.kindName), ("message", .text d.message)]

/-- The report as a document. -/
def document (r : Report) : Document := .fields (
  [("schema_id", .text schema)] ++
  (match r.source with
    | some s => [("source", sourceDocument s)]
    | none => []) ++
  [("environments", .texts r.environments),
   ("production", .flag r.production),
   ("persistent", .flag r.persistent),
   ("optimize", .flag r.optimize),
   ("source_maps", .flag r.sourceMaps),
   ("paths", pathsDocument r.paths),
   ("server", serverDocument r.server),
   ("modules", .fields [
     ("wrapper", .text r.wrapper.name),
     ("definition", .text r.definition.name),
     ("auto_require", table .texts r.autoRequire)]),
   ("npm", .fields [("enabled", .flag r.npm.enabled), ("static", .texts r.npm.staticModules)]),
   ("conventions", table .text r.conventions),
   ("join", table (table (table .text)) r.routes),
   ("plugin_helpers", table .texts r.pluginHelpers),
   ("plugins", .fields [("on", .texts r.on), ("off", .texts r.off), ("only", .texts r.only)]),
   ("diagnostics", .list (r.diagnostics.map diagnosticDocument))])

/-- The text of a report. -/
def text (r : Report) : String := r.document.render

end Report
end AssetPlan
