import AssetPlan.Json.Reader
import AssetPlan.Value.Equality
import AssetPlan.Value.Json
import AssetPlan.Toml.Reader
import AssetPlan.Routing.Compile
import AssetPlan.Options
import AssetPlan.Cascade
import AssetPlan.Defaults
import AssetPlan.Legacy
import AssetPlan.FileSystem.Tree
import AssetPlan.Source
import AssetPlan.Resolution
import AssetPlan.Report
import AssetPlan.Main
import AssetPlan.Proofs.Entries
import AssetPlan.Proofs.Traversal
import AssetPlan.Proofs.Pattern.Literal
import AssetPlan.Proofs.Value.Path
import AssetPlan.Proofs.Value.Pattern
import AssetPlan.Proofs.Value.Leaves
import AssetPlan.Proofs.Value.Shapes
import AssetPlan.Proofs.Value.WellKeyed
import AssetPlan.Proofs.Value.Section
import AssetPlan.Proofs.Value.Unset
import AssetPlan.Proofs.Value.Kept
import AssetPlan.Proofs.Value.Pruned
import AssetPlan.Proofs.Value.Equality
import AssetPlan.Proofs.Value.Equivalence
import AssetPlan.Proofs.Value.Json
import AssetPlan.Proofs.Routing.Declaration
import AssetPlan.Proofs.Routing.Claims
import AssetPlan.Proofs.Routing.FirstDeclared
import AssetPlan.Proofs.Routing.Destinations
import AssetPlan.Proofs.Routing.WellFormed
import AssetPlan.Proofs.Routing.Conflicts
import AssetPlan.Proofs.ConfigError
import AssetPlan.Proofs.Routing.Rejection
import AssetPlan.Proofs.Merge
import AssetPlan.Proofs.Merge.Order
import AssetPlan.Proofs.Cascade.Server
import AssetPlan.Proofs.Cascade.Layers
import AssetPlan.Proofs.Cascade.Toggles
import AssetPlan.Proofs.Cascade.RoutingKeys
import AssetPlan.Proofs.Configuration
import AssetPlan.Proofs.Options
import AssetPlan.Proofs.Resolution
import AssetPlan.Proofs.Cascade.Precedence
import AssetPlan.Proofs.Defaults.Step
import AssetPlan.Proofs.Defaults.Filled
import AssetPlan.Proofs.Cascade.Invocation
import AssetPlan.Proofs.Cascade.Undeclared
import AssetPlan.Proofs.Cascade.Snapshot
import AssetPlan.Proofs.Cascade.Pruned
import AssetPlan.Proofs.Cascade.Commute
import AssetPlan.Proofs.Routing.Alike
import AssetPlan.Proofs.Configuration.Pruned
import AssetPlan.Proofs.Defaults.Pruned
import AssetPlan.Proofs.Defaults.Unset
import AssetPlan.Proofs.Configuration.Unset
import AssetPlan.Proofs.Cascade.Unmentioned
import AssetPlan.Proofs.Legacy
import AssetPlan.Proofs.Resolution.Idempotence
import AssetPlan.Proofs.Defaults.Agreement
import AssetPlan.Proofs.Defaults.Fresh
import AssetPlan.Proofs.Cascade.Production
import AssetPlan.Proofs.Resolution.Completeness
import AssetPlan.Proofs.Defaults.Origin
import AssetPlan.Proofs.Defaults.Rejection
import AssetPlan.Proofs.Configuration.Rejection
import AssetPlan.Proofs.Resolution.Rejection
import AssetPlan.Proofs.Resolution.Inert
import AssetPlan.Proofs.Resolution.Unset
import AssetPlan.Proofs.CommandLine
import AssetPlan.Proofs.Merge.Again
import AssetPlan.Proofs.Cascade.Reverted
import AssetPlan.Proofs.Defaults.Kept
import AssetPlan.Proofs.Regex.Exact
import AssetPlan.Proofs.Pattern.Glob
import AssetPlan.Proofs.Configuration.Modules
import AssetPlan.Proofs.FilePath
import AssetPlan.Proofs.Text
import AssetPlan.Proofs.Configuration.Paths
import AssetPlan.Proofs.Source
import AssetPlan.Proofs.Json
import AssetPlan.Proofs.Toml
import AssetPlan.Proofs.FileSystem
import AssetPlan.Proofs.Resolution.File
import AssetPlan.Proofs.Options.Environments
import AssetPlan.Proofs.Routing.Helpers
import AssetPlan.Proofs.Resolution.Conventions
import AssetPlan.Proofs.Resolution.Hooks
import AssetPlan.Proofs.Report
