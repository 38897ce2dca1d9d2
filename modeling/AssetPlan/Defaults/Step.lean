import AssetPlan.Value.Section

/-! # Steps of defaulting

Defaults are filled in steps. A step changes the configuration or fails and leaves it as it was, so a run
that fails midway still has a configuration: the one that the steps before it made. No step writes
outside the section it names. -/

namespace AssetPlan

/-- A step of defaulting. Values may depend on the configuration so far. -/
inductive Step where
  /-- Makes a section if there is none. -/
  | openSection (path : List String) (key : String)
  /-- Writes a value where there is none or null. -/
  | fill (path : List String) (key : String) (value : Mapping → Except ConfigError Value)
  /-- Writes a value over any other. -/
  | write (path : List String) (key : String) (value : Mapping → Except ConfigError Value)
  /-- Asks for a string in a section. -/
  | requireText (path : List String) (key : String)

namespace Step

/-- The configuration after a step. -/
def apply (config : Mapping) : Step → Except ConfigError Mapping
  | .openSection path key => config.editAt path fun fields => fields.editSection key .ok
  | .fill path key value => do
    let v ← value config
    config.editAt path fun fields => .ok (fields.setDefault key v)
  | .write path key value => do
    let v ← value config
    config.editAt path fun fields => .ok (Entries.insert fields key v)
  | .requireText path key =>
    config.editAt path fun fields => do
      let _ ← fields.text? path key
      .ok fields

/-- The configuration after a run of steps up to the first that fails, and its error. -/
def run (config : Mapping) : List Step → Mapping × Option ConfigError
  | [] => (config, none)
  | step :: rest =>
    match step.apply config with
    | .ok config => run config rest
    | .error e => (config, some e)

end Step
end AssetPlan
