import AssetPlan.Options
import AssetPlan.Proofs.Entries
import AssetPlan.Proofs.Value.Path

/-! # The layer of an invocation

The layer says whether the build goes on watching, and of the output directory and the server just what the
options say. -/

namespace AssetPlan.Options
open Mapping
variable {o : Options}

theorem wellKeyed_layer (o : Options) : (Value.mapping o.layer).WellKeyed := by
  unfold layer publicLayer serverLayer
  cases o.publicPath <;> cases o.server <;> cases o.port <;>
    simp [Value.WellKeyed, Value.EntriesWellKeyed, Value.ofNat, Entries.WellKeyed,
      Entries.keys]

theorem get?_layer (o : Options) (key : String) :
    Entries.get? o.layer key = ((Entries.get? o.publicLayer key).or (Entries.get? o.serverLayer key)).or
      (Entries.get? [("persistent", .bool o.persistent)] key) := by
  unfold layer
  rw [Entries.get?_append, Entries.get?_append]

theorem get?_layer_persistent (o : Options) : Entries.get? o.layer "persistent" = some (.bool o.persistent) := by
  rw [get?_layer]
  unfold publicLayer serverLayer
  cases o.publicPath <;> cases o.server <;> cases o.port <;> rfl

theorem get?_layer_paths (o : Options) :
    Entries.get? o.layer "paths" = o.publicPath.map fun path => .mapping [("public", .string path)] := by
  rw [get?_layer]
  unfold publicLayer serverLayer
  cases o.publicPath <;> cases o.server <;> cases o.port <;> rfl

theorem find?_layer_public {path : String} (h : o.publicPath = some path) :
    o.layer.find? ["paths", "public"] = some (.string path) := by
  rw [find?_cons_eq, get?_layer_paths, h]
  rfl

theorem find?_layer_run (h : o.server = true) : o.layer.find? ["server", "run"] = some (.bool true) := by
  rw [find?_cons_eq, get?_layer]
  unfold publicLayer serverLayer
  rw [h]
  cases o.publicPath <;> cases o.port <;> rfl

theorem find?_layer_port {port : UInt16} (h : o.server = true) (hport : o.port = some port) :
    o.layer.find? ["server", "port"] = some (.ofNat port.toNat) := by
  rw [find?_cons_eq, get?_layer]
  unfold publicLayer serverLayer
  rw [h, hport]
  cases o.publicPath <;> rfl

end AssetPlan.Options
