import AssetPlan.ConfigError

/-! # The `plugins` section

Which plugins run, and their settings: whatever stands under a key other than `on`, `off` and `only`. -/

namespace AssetPlan

/-- Plugins given by one name or by a list of names. -/
inductive PluginSelector where
  | one (name : String)
  | many (names : List String)
  deriving DecidableEq, Repr

namespace PluginSelector

/-- The plugins that a value names. -/
def ofValue (key : List String) : Value → Except ConfigError PluginSelector
  | .string name => .ok (.one name)
  | .list items =>
    match Value.allStrings? items with
    | some names => .ok (.many names)
    | none => .error (.structural key (.misshapen .pluginNames))
  | v => .error (.structural key (.ofKind .pluginNameOrNames v))

/-- The names in order. -/
def toList : PluginSelector → List String
  | .one name => [name]
  | .many names => names

end PluginSelector

/-- The settings of plugins. -/
structure Plugins where
  on : List String
  off : List String
  /-- If there are any, the plugins that run. -/
  only : List String
  /-- The settings of single plugins. -/
  settings : Mapping

namespace Plugins

/-- No settings. -/
def empty : Plugins := ⟨[], [], [], []⟩

/-- The names under a key; a null list is empty. -/
def namesOf (key : String) (v : Value) : Except ConfigError (List String) :=
  if v.isNull then .ok [] else (PluginSelector.ofValue ["plugins", key] v).map PluginSelector.toList

/-- The settings with one more entry. -/
def add (p : Plugins) (entry : String × Value) : Except ConfigError Plugins :=
  match entry with
  | ("on", v) => (namesOf "on" v).map fun names => { p with on := names }
  | ("off", v) => (namesOf "off" v).map fun names => { p with off := names }
  | ("only", v) => (namesOf "only" v).map fun names => { p with only := names }
  | (name, v) => .ok { p with settings := p.settings ++ [(name, v)] }

/-- The settings in a section. -/
def ofFields (fields : Mapping) : Except ConfigError Plugins := fields.foldlM add empty

/-- Whether a plugin runs: one of those that only run, or one that is not turned off. -/
def isEnabled (p : Plugins) (name : String) : Bool :=
  if p.only.isEmpty then ! p.off.contains name else p.only.contains name

/-- The settings of a plugin. -/
def settingsOf? (p : Plugins) (name : String) : Option Value := Entries.get? p.settings name

end Plugins
end AssetPlan
