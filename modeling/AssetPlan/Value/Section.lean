import AssetPlan.ConfigError

/-! # Sections and their settings

A section is a mapping under a key. A missing or null section counts as an empty one and is made when
it is changed; any other value in its place is an error that names the key. The settings of a finished
configuration are read by shape: a text or a section must be there, a flag has a standard value. -/

namespace AssetPlan.Mapping

/-- The section under a key. -/
def fields? (m : Mapping) (key : String) : Except ConfigError Mapping :=
  match Entries.get? m key with
  | none => .ok []
  | some .null => .ok []
  | some (.mapping fields) => .ok fields
  | some v => .error (.structural [key] (.ofKind .mapping v))

/-- Changes the section under a key. -/
def editSection (m : Mapping) (key : String) (f : Mapping → Except ConfigError Mapping) :
    Except ConfigError Mapping := do
  let fields ← f (← m.fields? key)
  .ok (Entries.insert m key (.mapping fields))

/-- Changes the section at the end of a chain of keys. -/
def editAt : List String → (Mapping → Except ConfigError Mapping) → Mapping → Except ConfigError Mapping
  | [], f, m => f m
  | key :: path, f, m => m.editSection key (editAt path f)

/-- The text of a setting; `path` leads to its section. -/
def text? (fields : Mapping) (path : List String) (key : String) : Except ConfigError String :=
  match Entries.get? fields key with
  | some (.string s) => .ok s
  | some v => .error (.structural (path ++ [key]) (.ofKind .string v))
  | none => .error (.structural (path ++ [key]) .missing)

/-- A truth value; `path` leads to its section, and a missing or null one is as `standard` says. -/
def flag? (fields : Mapping) (path : List String) (key : String) (standard : Bool) : Except ConfigError Bool :=
  match Entries.get? fields key with
  | none => .ok standard
  | some .null => .ok standard
  | some (.bool b) => .ok b
  | some v => .error (.structural (path ++ [key]) (.ofKind .boolean v))

/-- A section that must be there. -/
def required (m : Mapping) (key : String) : Except ConfigError Mapping :=
  match Entries.get? m key with
  | some (.mapping fields) => .ok fields
  | some v => .error (.structural [key] (.ofKind .mapping v))
  | none => .error (.structural [key] .missing)

end AssetPlan.Mapping
