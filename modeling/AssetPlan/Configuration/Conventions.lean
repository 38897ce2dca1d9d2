import AssetPlan.Matcher
import AssetPlan.Text.Split
import AssetPlan.Value.Pattern

/-! # Conventions

A convention names a set of paths: assets, ignored files, files of vendors and whatever else a project
declares. The files of managed dependencies are never assets. -/

namespace AssetPlan

/-- The conventions of a project, in declaration order. -/
structure Conventions where
  matchers : Entries String Matcher

namespace Conventions

/-- The directory of managed dependencies. -/
def dependencyDirectory : String := "node_modules"

/-- Whether a path has the directory of managed dependencies among its parts; both slashes part them. -/
def isDependency (path : String) : Bool :=
  (Text.split (fun c => c == '/' || c == '\\') path).contains dependencyDirectory

/-- The matcher of a convention. -/
def matcherOf (name : String) (p : Pattern) : Matcher :=
  if name = "assets" then .excluding (.pattern p) isDependency else .pattern p

/-- One convention. -/
def ofEntry (entry : String × Value) : Except ConfigError (String × Matcher) := do
  let p ← entry.2.toPattern ["conventions", entry.1]
  .ok (entry.1, matcherOf entry.1 p)

/-- The conventions in a section; a null one is none. -/
def ofFields (fields : Mapping) : Except ConfigError Conventions := do
  let matchers ← (fields.filter fun e => ! e.2.isNull).mapM ofEntry
  .ok ⟨matchers⟩

/-- Whether a convention is declared and accepts a path. -/
def accepts (c : Conventions) (name path : String) : Bool :=
  (Entries.get? c.matchers name).any (·.accepts path)

/-- Whether a path is an asset. -/
def isAsset (c : Conventions) (path : String) : Bool := c.accepts "assets" path

/-- Whether a path is ignored. -/
def isIgnored (c : Conventions) (path : String) : Bool := c.accepts "ignored" path

/-- Whether a path is a file of a vendor. -/
def isVendor (c : Conventions) (path : String) : Bool := c.accepts "vendor" path

end Conventions
end AssetPlan
