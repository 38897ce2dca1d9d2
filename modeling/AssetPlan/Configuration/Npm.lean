import AssetPlan.Value.Section

/-! # The `npm` section

Whether managed dependencies are bundled, and which of them are bundled as they are. -/

namespace AssetPlan

/-- The settings of managed dependencies. -/
structure Npm where
  enabled : Bool
  /-- The modules that are bundled without a wrapper. -/
  staticModules : List String
  deriving DecidableEq, Repr

namespace Npm

/-- The names of static modules. -/
def staticOf : Value → Except ConfigError (List String)
  | .null => .ok []
  | v =>
    match v.strings? with
    | some names => .ok names
    | none => .error (.structural ["npm", "static"] (.misshapen .moduleNames))

/-- The settings in a section. -/
def ofFields (fields : Mapping) : Except ConfigError Npm := do
  let staticModules ← staticOf ((Entries.get? fields "static").getD .null)
  let enabled ← fields.flag? ["npm"] "enabled" true
  .ok ⟨enabled, staticModules⟩

end Npm
end AssetPlan
