import AssetPlan.Value

/-! # Plugin toggles

An environment that names plugins under `plugins.on` or `plugins.off` replaces the whole list. So that it
leaves the plugins alone that it does not name, every list of the configuration so far is carried into
the layer: the layer's own names, then those that the layer names under neither list. -/

namespace AssetPlan

/-- One of the two lists of plugins. -/
inductive Toggle where
  | on
  | off
  deriving DecidableEq, Repr

namespace Toggle

/-- The key of a list under `plugins`. -/
def key : Toggle → String
  | .on => "on"
  | .off => "off"

/-- The other list. -/
def opposite : Toggle → Toggle
  | .on => .off
  | .off => .on

/-- The names in a list of a configuration; a value of another shape counts as an empty list. -/
def names (toggle : Toggle) (config : Mapping) : List String :=
  (((Entries.get? config "plugins").bind (·.get? toggle.key)).bind Value.strings?).getD []

/-- The layer's own names and those of the current list that the layer does not name. -/
def carriedNames (toggle : Toggle) (current layer : Mapping) : List String :=
  toggle.names layer ++ (toggle.names current).filter fun name =>
    ! (toggle.opposite.names layer).contains name && ! (toggle.names layer).contains name

/-- The layer with one list carried into it; an empty list is not. -/
def carry (toggle : Toggle) (current layer : Mapping) : Mapping :=
  if (toggle.names current).isEmpty then layer
  else Mapping.modifyChild layer "plugins" fun plugins =>
    Entries.insert plugins toggle.key (.ofStrings (toggle.carriedNames current layer))

end Toggle

/-- Whether plugins can be written into a layer. -/
def acceptsPlugins (layer : Mapping) : Bool :=
  match Entries.get? layer "plugins" with
  | none => true
  | some v => v.isNull || v.isMapping

/-- The layer with the lists of plugins carried into it, first `on` and then `off`. -/
def reconcileToggles (current layer : Mapping) : Mapping :=
  if acceptsPlugins layer then Toggle.off.carry current (Toggle.on.carry current layer) else layer

end AssetPlan
