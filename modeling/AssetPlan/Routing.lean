import AssetPlan.Diagnostic
import AssetPlan.Matcher

/-! # Routing tables

A routing table says which assets go into which bundle: for every asset type, under every entry, the
output paths with their matchers. Routing that is tied to no entry point stands under `defaultEntry`. -/

namespace AssetPlan

/-- Output paths with their matchers, in declaration order. -/
abbrev Bundles := Entries String Matcher

/-- The routing of one asset type. -/
structure TypeRoutes where
  entries : Entries String Bundles
  /-- The bundles that receive the helper code of plugins. -/
  pluginHelpers : List String

/-- No routing. -/
def TypeRoutes.empty : TypeRoutes := ⟨[], []⟩

/-- A routing table. -/
structure Routing where
  types : Entries AssetType TypeRoutes
  /-- All output paths in the order in which they were claimed. -/
  outputPaths : List String

namespace Routing

/-- No routing for any asset type. -/
def empty : Routing := ⟨[], []⟩

/-- The routing of an asset type by entries. -/
def entries? (r : Routing) (type : AssetType) : Option (Entries String Bundles) :=
  (Entries.get? r.types type).map TypeRoutes.entries

/-- The bundles of an entry. -/
def entryBundles? (r : Routing) (type : AssetType) (entry : String) : Option Bundles :=
  (r.entries? type).bind (Entries.get? · entry)

/-- The bundles that are tied to no entry point. -/
def defaultBundles? (r : Routing) (type : AssetType) : Option Bundles := r.entryBundles? type defaultEntry

/-- The bundles of an asset type that receive the helper code of plugins. -/
def pluginHelpers (r : Routing) (type : AssetType) : List String :=
  ((Entries.get? r.types type).map TypeRoutes.pluginHelpers).getD []

/-- The bundles of one entry that take a path. -/
def acceptingBundles (path : String) (entry : String × Bundles) : List (String × String) :=
  (entry.2.filter fun b => b.2.accepts path).map fun b => (entry.1, b.1)

/-- The entries and output paths of the bundles that take a path. -/
def bundlesFor (r : Routing) (type : AssetType) (path : String) : List (String × String) :=
  ((r.entries? type).getD []).flatMap (acceptingBundles path)

end Routing
end AssetPlan
