import AssetPlan.Options
import AssetPlan.Proofs.Cascade.Toggles
import AssetPlan.Proofs.Defaults.Fresh

/-! # A cascade over the built-in overrides

The only layers over built-in overrides are that of production builds and the snapshot. The first turns three
settings over, and the second leaves them alone: of the three the flags are no sections, and its plugins are
empty. So the tree after any environments depends only on whether one of them is for production. -/

namespace AssetPlan.Cascade
open Mapping Defaults
variable {inv : Invocation} {config current : Mapping} {hooks : Option Value} {production : Bool} {environments : List String}

/-! ### The two layers -/

/-- Where the current tree has no lists of plugins none are carried. -/
theorem reconcileToggles_of_names {current layer : Mapping} (h : ∀ toggle : Toggle, toggle.names current = []) :
    reconcileToggles current layer = layer := by
  have hcarry : ∀ (toggle : Toggle) layer, toggle.carry current layer = layer := by
    intro toggle layer
    unfold Toggle.carry
    rw [h toggle]
    rfl
  unfold reconcileToggles
  rw [hcarry, hcarry]
  split <;> rfl

/-- The settings that the layer of production builds turns over. -/
def turnedKeys : List String := ["optimize", "sourceMaps", "plugins"]

/-- The plugins before or after the layer of production builds. -/
def turnedPlugins (production : Bool) : Mapping :=
  if production then [("autoReload", .mapping [("enabled", .bool false)])] else []

/-- A tree that is for production or not, and otherwise as the configuration that its cascade began with. -/
structure Turned (config : Mapping) (production : Bool) (current : Mapping) : Prop where
  rest : ∀ key, key ∉ turnedKeys → key ≠ "overrides" → Entries.get? current key = Entries.get? config key
  overrides : ∃ fields, Entries.get? current "overrides" = some (.mapping fields)
  optimize : Entries.get? current "optimize" = some (.bool production)
  sourceMaps : Entries.get? current "sourceMaps" = some (.bool (!production))
  plugins : Entries.get? current "plugins" = some (.mapping (turnedPlugins production))

namespace Turned

theorem names_eq_nil (h : Turned config production current) (toggle : Toggle) : toggle.names current = [] := by
  unfold Toggle.names
  rw [h.plugins]
  cases production <;> cases toggle <;> rfl

theorem applyLayer_eq (h : Turned config production current) (layer : Mapping) :
    applyLayer current layer = Mapping.merge .cascade current layer := by
  unfold applyLayer
  rw [reconcileToggles_of_names h.names_eq_nil]

/-- The layer of production builds turns the tree. -/
theorem productionLayer (h : Turned config production current) :
    Turned config true (applyLayer current Defaults.productionLayer) := by
  have hw : Entries.WellKeyed Defaults.productionLayer := by
    show (Entries.keys _).Nodup
    decide
  rw [h.applyLayer_eq]
  refine ⟨fun key hkey hover => ?rest, ?overrides, ?optimize, ?sourceMaps, ?plugins⟩
  case rest =>
    have hnone : Entries.get? Defaults.productionLayer key = none := Entries.get?_eq_none_iff.mpr hkey
    exact (get?_merge_of_none hnone).trans (h.rest key hkey hover)
  case overrides =>
    rw [get?_merge_of_none rfl]
    exact h.overrides
  case optimize =>
    rw [get?_merge_of_some hw rfl, Value.mergeOver_of_not_mapping _ rfl]
  case sourceMaps =>
    rw [get?_merge_of_some hw rfl, Value.mergeOver_of_not_mapping _ rfl]
    rfl
  case plugins =>
    rw [get?_merge_of_some hw rfl, h.plugins]
    cases production <;> rfl

/-- The snapshot turns nothing, and writes everything else as it is. -/
theorem snapshot (h : Turned config production current) (hw : (Value.mapping config).WellKeyed)
    (hconfig : Turned config false config) : Turned config production (applyLayer current (snapshot config)) := by
  have hget : ∀ key, key ≠ "overrides" →
      Entries.get? (Cascade.snapshot config) key = (Entries.get? config key).filter Value.isMapping :=
    fun key hne => get?_snapshot hw hne
  have hws : (Value.mapping (Cascade.snapshot config)).WellKeyed := hw.filter _
  rw [h.applyLayer_eq]
  refine ⟨fun key hkey hover => ?rest, ?overrides, ?optimize, ?sourceMaps, ?plugins⟩
  case rest =>
    cases hv : Entries.get? (Cascade.snapshot config) key with
    | none => exact (get?_merge_of_none hv).trans (h.rest key hkey hover)
    | some v =>
      have hheld : Entries.get? config key = some v := by
        rw [hget key hover] at hv
        exact (Option.filter_eq_some_iff.mp hv).1
      rw [get?_merge_of_some hws.1 hv, h.rest key hkey hover, hheld]
      exact congrArg some (Value.mergeAt_self (hws.get? hv))
  case overrides =>
    rw [get?_merge_of_none (overrides_snapshot hw)]
    exact h.overrides
  -- The flags are no sections, so the snapshot does not have them.
  case optimize =>
    rw [get?_merge_of_none ?_]
    · exact h.optimize
    · rw [hget _ (by decide), hconfig.optimize]
      rfl
  case sourceMaps =>
    rw [get?_merge_of_none ?_]
    · exact h.sourceMaps
    · rw [hget _ (by decide), hconfig.sourceMaps]
      rfl
  case plugins =>
    -- The snapshot has the plugins as they were before production, and those are empty.
    have hempty : Entries.get? (Cascade.snapshot config) "plugins" = some (.mapping []) := by
      rw [hget _ (by decide), hconfig.plugins]
      rfl
    have hmerge : Value.mergeAt .cascade ["plugins"] (.mapping (turnedPlugins production)) (.mapping []) =
        .mapping (turnedPlugins production) := Value.mergeAt_merged (by decide)
    rw [get?_merge_of_some hws.1 hempty, h.plugins]
    exact congrArg some hmerge

end Turned

/-! ### Any environments -/

section Fresh
variable (hw : (Value.mapping config).WellKeyed) (h : Stage hooks (fresh inv) config)
include h

theorem get?_overrides_fresh : Entries.get? config "overrides" = some (.mapping [(productionName, .mapping productionLayer)]) :=
  h.get?_of_made rfl

theorem turned_fresh : Turned config false config where
  rest _ _ _ := rfl
  overrides := ⟨_, get?_overrides_fresh h⟩
  optimize := h.get?_of_made rfl
  sourceMaps := h.get?_of_made rfl
  plugins := h.get?_of_made rfl

theorem turned_start (environments : List String) : Turned config false (start config environments) where
  rest _ _ hne := get?_start hne _
  overrides := by
    unfold start
    split
    · exact ⟨_, get?_overrides_fresh h⟩
    · rw [snapshotted_eq (get?_overrides_fresh h)]
      exact ⟨_, Entries.get?_insert_self _ _ _⟩
  optimize := (get?_start (by decide) _).trans (h.get?_of_made rfl)
  sourceMaps := (get?_start (by decide) _).trans (h.get?_of_made rfl)
  plugins := (get?_start (by decide) _).trans (h.get?_of_made rfl)

/-- What defaulting made and no environment changes. -/
theorem Turned.get?_fresh (hturned : Turned config production current) {key : String} {v : Value} (hkey : key ∉ turnedKeys)
    (hne : key ≠ "overrides") (hv : Entries.get? (fresh inv) key = some v) : Entries.get? current key = some v :=
  (hturned.rest key hkey hne).trans (h.get?_of_made hv)

theorem layerOf?_fresh (environment : String) : layerOf? config environment =
    if environment = snapshotName then some (snapshot config)
    else if environment = productionName then some productionLayer
    else none := by
  have hover := get?_overrides_fresh h
  have hset : config.hasValue "overrides" = true := hasValue_iff.mpr ⟨_, hover, rfl⟩
  unfold layerOf? declaredLayer?
  by_cases hname : environment = snapshotName
  · rw [if_pos ⟨hset, hname⟩, if_pos hname]
  · rw [if_neg fun h => hname h.2, if_neg hname, hover]
    show (Entries.get? [(productionName, Value.mapping productionLayer)] environment).bind Value.mapping? = _
    rw [Entries.get?_cons]
    by_cases hproduction : environment = productionName
    · rw [if_pos hproduction.symm, if_pos hproduction]
      rfl
    · rw [if_neg (Ne.symm hproduction), if_neg hproduction]
      rfl

include hw

theorem turned_foldl (hturned : Turned config production current) :
    Turned config (production || environments.contains productionName)
      ((layers config environments).foldl applyLayer current) := by
  unfold layers
  -- Once the tree is for production no later environment turns it back.
  induction environments generalizing production current with
  | nil => simpa using hturned
  | cons environment rest ih =>
    rw [List.filterMap_cons, layerOf?_fresh h, List.contains_cons, ← Bool.or_assoc]
    by_cases hname : environment = snapshotName
    · have hother : (productionName == environment) = false := by
        rw [hname]
        decide
      rw [if_pos hname, hother, Bool.or_false]
      exact ih (hturned.snapshot hw (turned_fresh h))
    · rw [if_neg hname]
      by_cases hproduction : environment = productionName
      · rw [if_pos hproduction, hproduction, beq_self_eq_true, Bool.or_true]
        exact ih hturned.productionLayer
      · have hother : (productionName == environment) = false := beq_eq_false_iff_ne.mpr (Ne.symm hproduction)
        rw [if_neg hproduction, hother, Bool.or_false]
        exact ih hturned

/-- After any environments a tree is for production if one of them is. -/
theorem applyEnvironments_fresh (environments : List String) : ∃ current,
    applyEnvironments config environments = .ok current ∧
      Turned config (environments.contains productionName) current := by
  have hover := get?_overrides_fresh h
  -- The only environment that is declared is the one for production.
  have hdeclarable : ∀ environment ∈ environments, environment ≠ snapshotName → Declarable config environment := by
    intro environment _ _ v hv
    rw [hover] at hv
    change Entries.get? [(productionName, Value.mapping productionLayer)] environment = some v at hv
    rw [Entries.get?_cons] at hv
    split at hv
    · cases hv
      exact .inr rfl
    · cases hv
  have hlayers : ∀ layer ∈ layers config environments, Entries.get? layer "overrides" = none := by
    intro layer hlayer
    obtain ⟨environment, -, hlayer⟩ := List.mem_filterMap.mp hlayer
    rw [layerOf?_fresh h] at hlayer
    split at hlayer
    · cases hlayer
      exact overrides_snapshot hw
    · split at hlayer <;> cases hlayer
      rfl
  refine ⟨_, applyEnvironments_eq hover hdeclarable hlayers, ?_⟩
  rw [← Bool.false_or (environments.contains productionName)]
  exact turned_foldl hw h (turned_start h environments)

end Fresh
end AssetPlan.Cascade
