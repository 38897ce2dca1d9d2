import AssetPlan.Text.Blank
import AssetPlan.Text.Split
import AssetPlan.Value

/-! # Options of an invocation

What the caller of a resolution decides beside the configuration file: the environments and their order,
and a last layer that wins over the file. No environment occurs twice; the one that the process names
comes last and a forced `production` first. -/

namespace AssetPlan

/-- The environment of a production build. -/
def productionName : String := "production"

/-- The options of an invocation. -/
structure Options where
  /-- The environments in the order in which they were named. -/
  named : List String := []
  /-- Whether a production build is forced. -/
  production : Bool := false
  /-- The output directory, in place of the one in the file. -/
  publicPath : Option String := none
  /-- Whether the development server is asked for. -/
  server : Bool := false
  /-- The port of the development server. -/
  port : Option UInt16 := none
  /-- Whether the build goes on watching. -/
  persistent : Bool := false
  /-- The path that the configuration was read from. -/
  configPath : Option String := none
  /-- The environment that the process names. -/
  processEnv : Option String := none
  deriving DecidableEq, Repr

namespace Options

/-- The names in a text between commas, without blanks around them and without empty ones. -/
def namesOfText (text : String) : List String :=
  ((Text.split (· == ',') text).map Text.trim).filter (· ≠ "")

/-- The options with the environment that a variable of the process names; blanks alone name none. -/
def withProcessEnv (o : Options) (processName : Option String) : Options :=
  { o with processEnv := processName.filter fun v => Text.trim v ≠ "" }

/-- The names without those that stand before already. -/
def distinct : List String → List String
  | [] => []
  | name :: rest => name :: (distinct rest).filter (· ≠ name)

theorem mem_distinct {name : String} {names : List String} : name ∈ distinct names ↔ name ∈ names := by
  induction names with
  | nil => simp [distinct]
  | cons first rest ih =>
    by_cases h : name = first <;> simp [distinct, ih, h]

theorem nodup_distinct (names : List String) : (distinct names).Nodup := by
  induction names with
  | nil => exact List.nodup_nil
  | cons first rest ih => exact List.nodup_cons.mpr ⟨by simp, ih.filter _⟩

/-- The environments that the command line names. -/
def commandEnvironments (o : Options) : List String :=
  distinct (if o.production then productionName :: o.named else o.named)

/-- The environments in the order in which they are applied. -/
def environments (o : Options) : List String :=
  match o.processEnv with
  | none => o.commandEnvironments
  | some name => o.commandEnvironments.filter (· ≠ Text.trim name) ++ [Text.trim name]

/-- Whether the build is one for production. -/
def isProduction (o : Options) : Bool := o.production || o.environments.contains productionName

/-- The output directory as a layer. -/
def publicLayer (o : Options) : Mapping :=
  match o.publicPath with
  | some path => [("paths", .mapping [("public", .string path)])]
  | none => []

/-- The development server as a layer. -/
def serverLayer (o : Options) : Mapping :=
  match o.server, o.port with
  | true, some port => [("server", .mapping [("run", .bool true), ("port", .ofNat port.toNat)])]
  | true, none => [("server", .mapping [("run", .bool true)])]
  | false, _ => []

/-- The layer that wins over all others. -/
def layer (o : Options) : Mapping := o.publicLayer ++ o.serverLayer ++ [("persistent", .bool o.persistent)]

end Options
end AssetPlan
