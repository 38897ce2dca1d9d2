import AssetPlan.Value.Section

/-! # The `server` section

The development server. Its port is an integer of 16 bits. -/

namespace AssetPlan

/-- The settings of the development server. -/
structure Server where
  publicPath : String
  base : String
  port : UInt16
  hostname : String
  /-- Whether the server runs. -/
  run : Bool
  deriving DecidableEq, Repr

namespace Server

/-- The text under a key. -/
def text (fields : Mapping) (key : String) : Except ConfigError String :=
  match Entries.get? fields key with
  | some (.string s) => .ok s
  | some v => .error (.structural ["server", key] (.ofKind .string v))
  | none => .error (.structural ["server", key] (.found .string "nothing"))

/-- The port. -/
def portOf (fields : Mapping) : Except ConfigError UInt16 :=
  match (Entries.get? fields "port").bind Value.nat? with
  | some n =>
    if n < UInt16.size then .ok (UInt16.ofNat n)
    else .error (.structural ["server", "port"] (.misshapen .port))
  | none => .error (.structural ["server", "port"] (.misshapen .port))

/-- The settings in a section. -/
def ofFields (fields : Mapping) : Except ConfigError Server := do
  let port ← portOf fields
  let publicPath ← text fields "publicPath"
  let base ← text fields "base"
  let hostname ← text fields "hostname"
  let run ← fields.flag? ["server"] "run" false
  .ok ⟨publicPath, base, port, hostname, run⟩

end Server
end AssetPlan
