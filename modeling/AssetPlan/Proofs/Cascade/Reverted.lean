import AssetPlan.Proofs.Cascade.Precedence

/-! # Back to the sections from before the cascade

As the last environment the snapshot is a layer like any other, so it wins with every value that it holds, wherever
the layers before it left another one or none. It holds all sections but `overrides` as they were, and what it sets
in a section of `files` is taken whole. Only the settings that a cascade writes itself do not come back. -/

namespace AssetPlan.Cascade
open Mapping
variable {config final overrides fields : Mapping} {environments : List String} {key : String} {q : List String} {v : Value}

theorem layers_concat_snapshot (h : config.hasValue "overrides" = true) (environments : List String) :
    layers config (environments ++ [snapshotName]) = layers config environments ++ [snapshot config] := by
  have hlast : layerOf? config snapshotName = some (snapshot config) := if_pos ⟨h, rfl⟩
  unfold layers
  rw [List.filterMap_append, List.filterMap_cons, hlast]
  rfl

/-- With the snapshot as the last environment it is merged over whatever the others have left. -/
theorem exists_overlaid_concat_snapshot (h : config.hasValue "overrides" = true) (environments : List String) :
    ∃ current, overlaid config (environments ++ [snapshotName]) = applyLayer current (snapshot config) := by
  unfold overlaid
  rw [layers_concat_snapshot h, List.foldl_append]
  exact ⟨_, rfl⟩

/-- A value in a section is apart from the settings that a cascade writes, unless it is at one or below. -/
theorem apart_of_leaf (hkey : Entries.get? config key = some (.mapping fields)) (hv : config.find? (key :: q) = some v)
    (hleaf : v.isMapping = false) (hq : ∀ target ∈ writtenPaths, ¬ target <+: key :: q) :
    ∀ target ∈ writtenPaths, KeyPath.Apart target (key :: q) := by
  have hlength : ∀ target ∈ writtenPaths, target.length = 2 := by decide
  refine fun target htarget => ⟨hq target htarget, fun hbefore => ?_⟩
  cases q with
  | nil =>
    rw [find?_singleton, hkey] at hv
    cases hv
    cases hleaf
  | cons below q =>
    have hsame : key :: below :: q = target := hbefore.eq_of_length_le (by simp [hlength target htarget])
    exact hq target htarget (hsame ▸ List.prefix_rfl)

/-- Where a cascade only merges, the snapshot of the sections decides if it comes last. -/
theorem find?_apply_snapshot (hw : (Value.mapping config).WellKeyed)
    (hover : Entries.get? config "overrides" = some (.mapping overrides))
    (hl : ∀ layer ∈ layers config (environments ++ [snapshotName]), Entries.get? layer "overrides" = none)
    (h : apply config (environments ++ [snapshotName]) [] = .ok final)
    (hq : ∀ target ∈ writtenPaths, KeyPath.Apart target q) :
    ∃ current layer : Mapping, (Value.mapping layer).WellKeyed ∧ final.find? q = (Mapping.merge .cascade current layer).find? q ∧
      layer.find? q = (snapshot config).find? q := by
  obtain ⟨current, hcurrent⟩ :=
    exists_overlaid_concat_snapshot (hasValue_iff.mpr ⟨_, hover, rfl⟩ : config.hasValue "overrides" = true) environments
  refine ⟨current, reconcileToggles current (snapshot config), wellKeyed_reconcileToggles (hw.filter _), ?_, ?_⟩
  · rw [find?_apply_of_apart hq hl h, merge_nil, hcurrent]
    rfl
  · refine find?_reconcileToggles fun toggle => ?_
    cases toggle
    · exact hq _ (by decide)
    · exact hq _ (by decide)

/-- The environment `_default` reverts the sections. As the last one it brings back every value of a section other
    than `overrides` that is no mapping, but for the settings that a cascade writes itself, and everything that a
    section of `files` sets, whatever the environments before it replaced or dropped. -/
theorem default_reverts (hw : (Value.mapping config).WellKeyed)
    (hover : Entries.get? config "overrides" = some (.mapping overrides))
    (hl : ∀ layer ∈ layers config (environments ++ ["_default"]), Entries.get? layer "overrides" = none)
    (h : apply config (environments ++ ["_default"]) [] = .ok final) :
    (∀ key fields q v, key ≠ "overrides" → Entries.get? config key = some (.mapping fields) →
      (∀ target ∈ [["plugins", "on"], ["plugins", "off"], ["server", "publicPath"], ["server", "run"]],
        ¬ target <+: key :: q) →
      config.find? (key :: q) = some v → v.isMapping = false → final.find? (key :: q) = some v) ∧
    (∀ type setting v, config.find? ["files", type, setting] = some v →
      final.find? ["files", type, setting] = some v) := by
  constructor
  · intro key fields q v hne hkey hq hv hleaf
    have hapart := apart_of_leaf hkey hv hleaf hq
    obtain ⟨current, layer, hwl, hfinal, hlayer⟩ := find?_apply_snapshot hw hover hl h hapart
    rw [hfinal]
    refine find?_merge_of_leaf hwl hleaf ?_
    cases q with
    | nil =>
      rw [find?_singleton, hkey] at hv
      cases hv
      cases hleaf
    | cons below q => rw [hlayer, find?_snapshot hw hne, hv]
  · intro type setting v hv
    have hapart : ∀ target ∈ writtenPaths, KeyPath.Apart target ["files", type, setting] := by
      simp [writtenPaths, KeyPath.Apart]
    obtain ⟨current, layer, hwl, hfinal, hlayer⟩ := find?_apply_snapshot hw hover hl h hapart
    rw [hfinal]
    -- A section of `files` is a replace node: what the snapshot has there is taken whole.
    refine find?_merge_of_files hwl ?_
    rw [hlayer, find?_snapshot hw (by decide), hv]

/-- A project with bundles and an entry point, and an environment that drops the bundles and empties the paths. -/
def splitProject : Mapping := [
  ("paths", .mapping [("root", .string "."), ("watched", .list [.string "app"])]),
  ("files", .mapping [("javascripts", .mapping [
    ("joinTo", .mapping [("app.js", .string "app/**")]), ("entryPoints", .mapping [("app/main.js", .string "main.js")])])]),
  ("plugins", .mapping [("on", .string "lint"), ("lint", .mapping [("level", .string "strict")])]),
  ("overrides", .mapping [("split", .mapping [
    ("paths", .null), ("plugins", .mapping [("lint", .string "none")]),
    ("files", .mapping [("javascripts", .mapping [("entryPoints", .mapping [("app/other.js", .string "other.js")])])])])])]

theorem default_reverts_splitProject : ∃ changed final,
    apply splitProject ["split"] [] = .ok changed ∧
    changed.find? ["files", "javascripts", "joinTo"] = none ∧ changed.find? ["paths", "root"] = none ∧
    apply splitProject ["split", "_default"] [] = .ok final ∧
    final.find? ["files", "javascripts", "joinTo"] = some (.mapping [("app.js", .string "app/**")]) ∧
    final.find? ["files", "javascripts", "entryPoints", "app/main.js"] = some (.string "main.js") ∧
    final.find? ["plugins", "lint", "level"] = some (.string "strict") ∧
    final.find? ["paths", "root"] = some (.string ".") := by
  have hw : (Value.mapping splitProject).WellKeyed := by decide +kernel
  have hl : ∀ layer ∈ layers splitProject (["split"] ++ ["_default"]), Entries.get? layer "overrides" = none := by
    decide +kernel
  have hok : (apply splitProject (["split"] ++ ["_default"]) []).isOk = true := by decide +kernel
  obtain ⟨final, h⟩ := exists_ok_of_isOk hok
  obtain ⟨hsections, hfiles⟩ := default_reverts hw rfl hl h
  refine ⟨_, final, rfl, rfl, rfl, h, hfiles _ _ _ rfl, hsections _ _ _ _ ?_ rfl ?_ rfl rfl,
    hsections _ _ _ _ ?_ rfl ?_ rfl rfl, hsections _ _ _ _ ?_ rfl ?_ rfl rfl⟩
  all_goals decide

end AssetPlan.Cascade
