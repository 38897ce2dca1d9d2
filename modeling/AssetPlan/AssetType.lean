/-! # Asset types

The kinds of assets that are routed into bundles. -/

namespace AssetPlan

/-- A kind of asset. -/
inductive AssetType where
  | javascripts
  | stylesheets
  | templates
  deriving DecidableEq, Repr

namespace AssetType

/-- All asset types. -/
def all : List AssetType := [.javascripts, .stylesheets, .templates]

/-- The key of an asset type in a configuration. -/
def name : AssetType → String
  | .javascripts => "javascripts"
  | .stylesheets => "stylesheets"
  | .templates => "templates"

/-- The asset type with a key. -/
def ofName? (name : String) : Option AssetType := all.find? fun t => t.name == name

/-- Whether assets of the type may be routed by entry points. -/
def hasEntryPoints : AssetType → Bool
  | .javascripts => true
  | _ => false

theorem ofName?_name (t : AssetType) : ofName? t.name = some t := by cases t <;> decide

theorem name_of_ofName? {name : String} {t : AssetType} (h : ofName? name = some t) : t.name = name := by
  have := List.find?_some h
  exact eq_of_beq this

end AssetType
end AssetPlan
