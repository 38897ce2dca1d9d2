import AssetPlan.Proofs.Cascade.Layers
import AssetPlan.Proofs.Value.Shapes

/-! # The last mention of a plugin decides

A layer that names a plugin under `plugins.on` or `plugins.off` decides on which of the two lists it stands,
and every other plugin keeps its place. Carrying a list into the layer reads the other list, and the second
time that one has been carried before: this does no harm because the lists of the configuration so far have
no name in common. -/

namespace AssetPlan
open Mapping
variable {toggle : Toggle} {current layer m : Mapping} {name : String} {environments : List String}
  {config last final : Mapping}

/-- What may stand for a list of names: nothing, one name, or a list of names. -/
def Value.isNames (v : Value) : Bool := v.isNull || v.strings?.isSome

theorem Value.not_isMapping_of_isNames {v : Value} (h : v.isNames = true) : v.isMapping = false := by
  cases v with
  | mapping es => cases h
  | _ => rfl

/-- The lists of plugins are lists of names, and none is in both. -/
structure TogglesShaped (m : Mapping) : Prop where
  lists : ∀ toggle : Toggle, ∀ v, m.find? ["plugins", toggle.key] = some v → v.isNames = true
  disjoint : ∀ name ∈ Toggle.on.names m, name ∉ Toggle.off.names m

instance : Decidable (TogglesShaped m) :=
  decidable_of_iff ((∀ toggle ∈ [Toggle.on, Toggle.off], (m.find? ["plugins", toggle.key]).all Value.isNames = true) ∧
      ∀ name ∈ Toggle.on.names m, name ∉ Toggle.off.names m)
    ⟨fun h => ⟨fun toggle => (Option.all_eq_true _ _).mp (h.1 toggle (by cases toggle <;> decide)), h.2⟩,
      fun h => ⟨fun toggle _ => (Option.all_eq_true _ _).mpr (h.lists toggle), h.disjoint⟩⟩

/-- A layer that sets lists of plugins, if it says anything about plugins at all. -/
structure TogglesLayer (layer : Mapping) : Prop extends TogglesShaped layer where
  plugins : ∀ v, Entries.get? layer "plugins" = some v → v.isMapping = true
  overrides : Entries.get? layer "overrides" = none

instance : Decidable (TogglesLayer layer) :=
  decidable_of_iff (TogglesShaped layer ∧ (Entries.get? layer "plugins").all Value.isMapping = true ∧
      Entries.get? layer "overrides" = none)
    ⟨fun h => ⟨h.1, (Option.all_eq_true _ _).mp h.2.1, h.2.2⟩,
      fun h => ⟨h.toTogglesShaped, (Option.all_eq_true _ _).mpr h.plugins, h.overrides⟩⟩

/-- The plugins of a tree, if it says anything about them, are a section, and their lists are lists of names. A
    name may be in both. -/
structure PluginLists (m : Mapping) : Prop where
  lists : ∀ toggle : Toggle, ∀ v, m.find? ["plugins", toggle.key] = some v → v.isNames = true
  plugins : ∀ v, Entries.get? m "plugins" = some v → v.isMapping = true

instance : Decidable (PluginLists m) :=
  decidable_of_iff ((∀ toggle ∈ [Toggle.on, Toggle.off], (m.find? ["plugins", toggle.key]).all Value.isNames = true) ∧
      (Entries.get? m "plugins").all Value.isMapping = true)
    ⟨fun h => ⟨fun toggle => (Option.all_eq_true _ _).mp (h.1 toggle (by cases toggle <;> decide)),
        (Option.all_eq_true _ _).mp h.2⟩,
      fun h => ⟨fun toggle _ => (Option.all_eq_true _ _).mpr (h.lists toggle), (Option.all_eq_true _ _).mpr h.plugins⟩⟩

theorem TogglesLayer.pluginLists (hl : TogglesLayer layer) : PluginLists layer := ⟨hl.lists, hl.plugins⟩

/-- The list on which a plugin stands, `on` before `off`. -/
def mention? (name : String) (m : Mapping) : Option Toggle :=
  if name ∈ Toggle.on.names m then some .on else if name ∈ Toggle.off.names m then some .off else none

theorem mention?_eq_some (hm : TogglesShaped m) : mention? name m = some toggle ↔ name ∈ toggle.names m := by
  by_cases hon : name ∈ Toggle.on.names m
  · have hoff := hm.disjoint name hon
    cases toggle <;> simp [mention?, hon, hoff]
  · by_cases hoff : name ∈ Toggle.off.names m <;> cases toggle <;> simp [mention?, hon, hoff]

theorem mention?_eq_none_iff (toggle : Toggle) :
    mention? name m = none ↔ name ∉ toggle.names m ∧ name ∉ toggle.opposite.names m := by
  by_cases hon : name ∈ Toggle.on.names m <;> by_cases hoff : name ∈ Toggle.off.names m <;> cases toggle <;>
    simp [mention?, Toggle.opposite, hon, hoff]

/-! ### The lists by their look-up -/

namespace Toggle

theorem find?_key (m : Mapping) : m.find? ["plugins", toggle.key] = (Entries.get? m "plugins").bind (·.get? toggle.key) := by
  rw [find?_cons_eq]
  cases Entries.get? m "plugins" with
  | none => rfl
  | some v =>
    show (v.get? toggle.key).bind some = v.get? toggle.key
    cases v.get? toggle.key <;> rfl

theorem names_eq (m : Mapping) :
    toggle.names m = ((m.find? ["plugins", toggle.key]).bind Value.strings?).getD [] := by
  rw [find?_key]
  rfl

theorem names_congr {m' : Mapping} (h : m'.find? ["plugins", toggle.key] = m.find? ["plugins", toggle.key]) :
    toggle.names m' = toggle.names m := by
  rw [names_eq, names_eq, h]

theorem key_ne_opposite : toggle.key ≠ toggle.opposite.key := by
  cases toggle <;> decide

/-! ### A list carried into a layer -/

theorem find?_carry_self :
    (toggle.carry current layer).find? ["plugins", toggle.key] =
      if (toggle.names current).isEmpty then layer.find? ["plugins", toggle.key]
      else some (.ofStrings (toggle.carriedNames current layer)) := by
  unfold carry
  split
  · rfl
  · unfold modifyChild
    rw [find?_insert]
    show Mapping.find? (Entries.insert _ _ _) [toggle.key] = _
    rw [find?_singleton, Entries.get?_insert, if_pos rfl]

theorem find?_carry_opposite :
    (toggle.carry current layer).find? ["plugins", toggle.opposite.key] =
      layer.find? ["plugins", toggle.opposite.key] := by
  unfold carry
  split
  · rfl
  · unfold modifyChild
    rw [find?_insert]
    show Mapping.find? (Entries.insert _ _ _) [toggle.opposite.key] = _
    rw [find?_singleton, Entries.get?_insert, if_neg key_ne_opposite, get?_child]

/-- After carrying stand the carried names, also where there is nothing to carry. -/
theorem names_carry_self : toggle.names (toggle.carry current layer) = toggle.carriedNames current layer := by
  rw [names_eq, find?_carry_self]
  split
  · rename_i hempty
    rw [carriedNames, List.isEmpty_iff.mp hempty, List.filter_nil, List.append_nil, names_eq]
  · show ((Value.ofStrings _).strings?).getD [] = _
    rw [Value.strings?_ofStrings]
    rfl

theorem names_carry_opposite : toggle.opposite.names (toggle.carry current layer) = toggle.opposite.names layer :=
  names_congr find?_carry_opposite

theorem mem_carriedNames :
    name ∈ toggle.carriedNames current layer ↔
      name ∈ toggle.names layer ∨ name ∈ toggle.names current ∧ name ∉ toggle.opposite.names layer := by
  unfold carriedNames
  rw [List.mem_append, List.mem_filter]
  by_cases hown : name ∈ toggle.names layer <;> simp [hown]

theorem get?_plugins_carry (h : ∀ v, Entries.get? layer "plugins" = some v → v.isMapping = true) {v : Value}
    (hv : Entries.get? (toggle.carry current layer) "plugins" = some v) : v.isMapping = true := by
  unfold carry at hv
  split at hv
  · exact h v hv
  · unfold modifyChild at hv
    rw [Entries.get?_insert, if_pos rfl] at hv
    cases hv
    rfl

end Toggle

/-! ### A reconciled layer -/

namespace PluginLists

theorem reconcileToggles_eq (hl : PluginLists layer) :
    reconcileToggles current layer = Toggle.off.carry current (Toggle.on.carry current layer) := by
  have haccepts : acceptsPlugins layer = true := by
    unfold acceptsPlugins
    cases hv : Entries.get? layer "plugins" with
    | none => rfl
    | some v =>
      show (v.isNull || v.isMapping) = true
      rw [hl.plugins v hv, Bool.or_true]
  exact if_pos haccepts

theorem get?_plugins_reconciled (hl : PluginLists layer) {v : Value}
    (hv : Entries.get? (reconcileToggles current layer) "plugins" = some v) : v.isMapping = true := by
  rw [hl.reconcileToggles_eq] at hv
  exact Toggle.get?_plugins_carry (fun _ => Toggle.get?_plugins_carry hl.plugins) hv

theorem names_on_reconciled (hl : PluginLists layer) :
    Toggle.on.names (reconcileToggles current layer) = Toggle.on.carriedNames current layer := by
  rw [hl.reconcileToggles_eq]
  exact (Toggle.names_carry_opposite : Toggle.off.opposite.names _ = _).trans Toggle.names_carry_self

theorem names_off_reconciled (hl : PluginLists layer) :
    Toggle.off.names (reconcileToggles current layer) =
      Toggle.off.carriedNames current (Toggle.on.carry current layer) := by
  rw [hl.reconcileToggles_eq]
  exact Toggle.names_carry_self

theorem find?_reconciled (hl : PluginLists layer) :
    (reconcileToggles current layer).find? ["plugins", toggle.key] =
      if (toggle.names current).isEmpty then layer.find? ["plugins", toggle.key]
      else some (.ofStrings (toggle.names (reconcileToggles current layer))) := by
  cases toggle with
  | on =>
    rw [hl.names_on_reconciled, hl.reconcileToggles_eq]
    exact (Toggle.find?_carry_opposite : Mapping.find? _ ["plugins", Toggle.off.opposite.key] = _).trans
      Toggle.find?_carry_self
  | off =>
    have hon : Mapping.find? (Toggle.on.carry current layer) ["plugins", Toggle.off.key] =
        layer.find? ["plugins", Toggle.off.key] := Toggle.find?_carry_opposite
    rw [hl.names_off_reconciled, hl.reconcileToggles_eq, Toggle.find?_carry_self, hon]

theorem isNames_reconciled (hl : PluginLists layer) {v : Value}
    (hv : (reconcileToggles current layer).find? ["plugins", toggle.key] = some v) : v.isNames = true := by
  rw [hl.find?_reconciled] at hv
  split at hv
  · exact hl.lists toggle v hv
  · cases hv
    unfold Value.isNames
    rw [Value.strings?_ofStrings]
    rfl

/-! ### One layer -/

/-- A merge takes a list from the reconciled layer if it is there. -/
theorem find?_applyLayer (hw : (Value.mapping layer).WellKeyed) (hl : PluginLists layer) :
    (Cascade.applyLayer current layer).find? ["plugins", toggle.key] =
      ((reconcileToggles current layer).find? ["plugins", toggle.key]).or
        (current.find? ["plugins", toggle.key]) := by
  have hw' : (Value.mapping (reconcileToggles current layer)).WellKeyed := Cascade.wellKeyed_reconcileToggles hw
  cases hv : (reconcileToggles current layer).find? ["plugins", toggle.key] with
  | some v => exact find?_merge_of_leaf hw' (Value.not_isMapping_of_isNames (hl.isNames_reconciled hv)) hv
  | none =>
    refine find?_merge_of_silent hw' (by simp) ⟨rfl, fun u hu => ⟨hl.get?_plugins_reconciled hu, fun w hw => ?_⟩⟩
    have hplugins : Entries.get? (reconcileToggles current layer) "plugins" = some u := hu
    rw [Toggle.find?_key, hplugins] at hv
    exact absurd (hw.symm.trans hv) (by simp)

theorem names_applyLayer (hw : (Value.mapping layer).WellKeyed) (hl : PluginLists layer) :
    toggle.names (Cascade.applyLayer current layer) = toggle.names (reconcileToggles current layer) := by
  rw [Toggle.names_eq, Toggle.names_eq, hl.find?_applyLayer hw]
  cases hv : (reconcileToggles current layer).find? ["plugins", toggle.key] with
  | some v => rfl
  | none =>
    rw [hl.find?_reconciled] at hv
    split at hv
    · rename_i hempty
      rw [Option.none_or, ← Toggle.names_eq, List.isEmpty_iff.mp hempty]
      rfl
    · cases hv

theorem mem_on_applyLayer (hw : (Value.mapping layer).WellKeyed) (hl : PluginLists layer) :
    name ∈ Toggle.on.names (Cascade.applyLayer current layer) ↔
      name ∈ Toggle.on.names layer ∨ name ∈ Toggle.on.names current ∧ name ∉ Toggle.off.names layer := by
  rw [hl.names_applyLayer hw, hl.names_on_reconciled]
  exact Toggle.mem_carriedNames

/-- The second list reads the first one after it was carried, so what is carried on the first is not on the second. -/
theorem mem_off_applyLayer (hw : (Value.mapping layer).WellKeyed) (hl : PluginLists layer) :
    name ∈ Toggle.off.names (Cascade.applyLayer current layer) ↔ name ∈ Toggle.off.names layer ∨
      name ∈ Toggle.off.names current ∧ name ∉ Toggle.on.names layer ∧ name ∉ Toggle.on.names current := by
  have hown : Toggle.off.names (Toggle.on.carry current layer) = Toggle.off.names layer :=
    Toggle.names_carry_opposite
  have hon : name ∈ Toggle.off.opposite.names (Toggle.on.carry current layer) ↔
      name ∈ Toggle.on.names layer ∨ name ∈ Toggle.on.names current ∧ name ∉ Toggle.off.names layer := by
    show name ∈ Toggle.on.names (Toggle.on.carry current layer) ↔ _
    rw [Toggle.names_carry_self]
    exact Toggle.mem_carriedNames
  rw [hl.names_applyLayer hw, hl.names_off_reconciled, Toggle.mem_carriedNames, hown, hon]
  by_cases hoff : name ∈ Toggle.off.names layer <;> simp [hoff]

end PluginLists

namespace TogglesLayer

theorem mem_names_applyLayer (hw : (Value.mapping layer).WellKeyed) (hc : TogglesShaped current)
    (hl : TogglesLayer layer) :
    name ∈ toggle.names (Cascade.applyLayer current layer) ↔
      name ∈ toggle.names layer ∨ name ∈ toggle.names current ∧ name ∉ toggle.opposite.names layer := by
  cases toggle with
  | on => exact hl.pluginLists.mem_on_applyLayer hw
  | off =>
    rw [hl.pluginLists.mem_off_applyLayer hw]
    show _ ∨ _ ↔ _ ∨ _ ∧ name ∉ Toggle.on.names layer
    refine or_congr_right (and_congr_right fun hoff => and_iff_left fun hon => ?_)
    exact hc.disjoint name hon hoff

theorem togglesShaped_applyLayer (hw : (Value.mapping layer).WellKeyed) (hc : TogglesShaped current)
    (hl : TogglesLayer layer) : TogglesShaped (Cascade.applyLayer current layer) where
  lists toggle v hv := by
    rw [hl.pluginLists.find?_applyLayer hw] at hv
    rcases Option.or_eq_some_iff.mp hv with h | ⟨-, h⟩
    · exact hl.pluginLists.isNames_reconciled h
    · exact hc.lists toggle v h
  disjoint name hon hoff := by
    rw [hl.mem_names_applyLayer hw hc] at hon hoff
    rcases hon with hon | ⟨hon, hnot⟩
    · rcases hoff with hoff | ⟨-, hnot⟩
      · exact hl.disjoint name hon hoff
      · exact hnot hon
    · rcases hoff with hoff | ⟨hoff, -⟩
      · exact hnot hoff
      · exact hc.disjoint name hon hoff

/-- One merge: the layer's mention of a plugin if there is one, otherwise that from before. -/
theorem mention?_applyLayer (hw : (Value.mapping layer).WellKeyed) (hc : TogglesShaped current) (hl : TogglesLayer layer)
    (name : String) :
    mention? name (Cascade.applyLayer current layer) = (mention? name layer).or (mention? name current) := by
  refine Option.ext fun toggle => ?_
  rw [mention?_eq_some (hl.togglesShaped_applyLayer hw hc), hl.mem_names_applyLayer hw hc, Option.or_eq_some_iff,
    mention?_eq_some hl.toTogglesShaped, mention?_eq_some hc, mention?_eq_none_iff toggle]
  by_cases hown : name ∈ toggle.names layer <;> simp [hown, and_comm]

end TogglesLayer

/-! ### The whole cascade -/

namespace TogglesShaped

theorem congr {m' : Mapping} (h : Entries.get? m' "plugins" = Entries.get? m "plugins") (hm : TogglesShaped m) :
    TogglesShaped m' where
  lists toggle v hv := hm.lists toggle v (find?_congr h [toggle.key] ▸ hv)
  disjoint name hon hoff := by
    rw [Toggle.names_congr (find?_congr h _)] at hon hoff
    exact hm.disjoint name hon hoff

/-- The snapshot is a layer like any other. -/
theorem togglesLayer_snapshot (hw : (Value.mapping config).WellKeyed) (hc : TogglesShaped config) :
    TogglesLayer (Cascade.snapshot config) where
  lists toggle v hv := by
    rw [Cascade.find?_snapshot hw (by decide)] at hv
    exact hc.lists toggle v hv
  disjoint name hon hoff := by
    rw [Toggle.names_congr (Cascade.find?_snapshot hw (by decide) _ _)] at hon hoff
    exact hc.disjoint name hon hoff
  plugins v hv := by
    rw [Cascade.get?_snapshot hw (by decide)] at hv
    exact (Option.filter_eq_some_iff.mp hv).2
  overrides := Cascade.overrides_snapshot hw

theorem togglesLayer_layers (hw : (Value.mapping config).WellKeyed) (hc : TogglesShaped config)
    (hl : ∀ environment ∈ environments, ∀ layer, Cascade.declaredLayer? config environment = some layer →
      TogglesLayer layer)
    (hmem : layer ∈ Cascade.layers config environments) : TogglesLayer layer := by
  obtain ⟨environment, henvironment, h⟩ := List.mem_filterMap.mp hmem
  unfold Cascade.layerOf? at h
  split at h
  · cases h
    exact hc.togglesLayer_snapshot hw
  · exact hl environment henvironment layer h

end TogglesShaped

theorem mention?_congr {m' : Mapping} (h : Entries.get? m' "plugins" = Entries.get? m "plugins") (name : String) :
    mention? name m' = mention? name m := by
  unfold mention?
  rw [Toggle.names_congr (find?_congr h _), Toggle.names_congr (find?_congr h _)]

namespace Cascade

/-- After a cascade a plugin stands on the list under which the last layer that mentions it has it, and if no
    layer mentions it, where the configuration had it. So the two lists still have no name in common. -/
theorem names_apply_last_mention (hw : (Value.mapping config).WellKeyed) (hc : TogglesShaped config)
    (hl : ∀ environment ∈ environments, ∀ layer, declaredLayer? config environment = some layer → TogglesLayer layer)
    (hlast : Entries.get? last "plugins" = none) (h : apply config environments last = .ok final) :
    TogglesShaped final ∧ ∀ name toggle, name ∈ toggle.names final ↔
      (((layers config environments).filterMap (mention? name)).getLast?).or (mention? name config) =
        some toggle := by
  have hlayers : ∀ layer ∈ layers config environments, TogglesLayer layer :=
    fun _ hmem => hc.togglesLayer_layers hw hl hmem
  have hstart : Entries.get? (start config environments) "plugins" = Entries.get? config "plugins" :=
    get?_start (by decide) environments
  have hrun := fun name => overlaid_last_word (fun layer hmem current hcurrent =>
    ⟨(hlayers layer hmem).togglesShaped_applyLayer (wellKeyed_layers hw hmem) hcurrent,
      (hlayers layer hmem).mention?_applyLayer (wellKeyed_layers hw hmem) hcurrent name⟩) (hc.congr hstart)
  have hfinal : Entries.get? final "plugins" = Entries.get? (overlaid config environments) "plugins" :=
    (get?_apply (fun layer hmem => (hlayers layer hmem).overrides) h (by decide)).trans (get?_merge_of_none hlast)
  have hshaped := (hrun "").1.congr hfinal
  refine ⟨hshaped, fun name toggle => ?_⟩
  rw [← mention?_eq_some hshaped, mention?_congr hfinal, (hrun name).2, mention?_congr hstart]

/-- Three plugins, and two environments that move them. -/
def toggledConfig : Mapping := [
  ("plugins", .mapping [("on", .list [.string "sass", .string "lint"]), ("off", .string "minify")]),
  ("overrides", .mapping [
    ("production", .mapping [("plugins", .mapping [("on", .string "minify"), ("off", .list [.string "lint"])])]),
    ("ci", .mapping [("plugins", .mapping [("on", .null), ("off", .list [.string "minify", .string "maps"])])])])]

theorem names_apply_toggledConfig : ∃ final, apply toggledConfig ["production", "ci"] [] = .ok final ∧
    TogglesShaped toggledConfig ∧ TogglesShaped final ∧
    "sass" ∈ Toggle.on.names final ∧ "lint" ∈ Toggle.off.names final ∧ "minify" ∈ Toggle.off.names final := by
  have hw : (Value.mapping toggledConfig).WellKeyed := by decide +kernel
  have hc : TogglesShaped toggledConfig := by decide +kernel
  have hl : ∀ environment ∈ ["production", "ci"], ∀ layer,
      declaredLayer? toggledConfig environment = some layer → TogglesLayer layer := by
    intro environment henvironment layer hlayer
    have hall : ∀ layer ∈ ["production", "ci"].filterMap (declaredLayer? toggledConfig), TogglesLayer layer := by
      decide +kernel
    exact hall layer (List.mem_filterMap.mpr ⟨environment, henvironment, hlayer⟩)
  have hok : (apply toggledConfig ["production", "ci"] []).isOk = true := by decide +kernel
  obtain ⟨final, h⟩ := exists_ok_of_isOk hok
  obtain ⟨hfinal, hnames⟩ := names_apply_last_mention hw hc hl rfl h
  refine ⟨final, h, hc, hfinal, (hnames _ _).mpr ?_, (hnames _ _).mpr ?_, (hnames _ _).mpr ?_⟩ <;> decide +kernel

end Cascade
end AssetPlan
