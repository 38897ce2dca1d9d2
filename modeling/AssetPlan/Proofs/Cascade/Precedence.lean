import AssetPlan.Proofs.Cascade.Layers

/-! # Later layers win

Outside of `files` and of the settings that it writes itself, a cascade merges layers and does nothing else: at
every path the last layer that holds a value decides, and what no layer touches is as it was. Carrying lists of
plugins into a layer writes to those lists only, so the layer says at other paths what it said before. -/

namespace AssetPlan.Cascade
open Mapping
variable {toggle : Toggle} {current layer m : Mapping} {q : List String} {v : Value} {environments : List String}
  {config last final : Mapping}

/-- The settings that a cascade writes itself. -/
def writtenPaths : List (List String) :=
  [["plugins", "on"], ["plugins", "off"], ["server", "publicPath"], ["server", "run"]]

/-- A path at which a cascade only merges, key by key. -/
structure MergedPath (q : List String) : Prop where
  overrides : q.head? ≠ some "overrides"
  files : q.head? ≠ some "files"
  apart : ∀ target ∈ writtenPaths, KeyPath.Apart target q

instance : Decidable (MergedPath q) :=
  decidable_of_iff (q.head? ≠ some "overrides" ∧ q.head? ≠ some "files" ∧ ∀ target ∈ writtenPaths, KeyPath.Apart target q)
    ⟨fun h => ⟨h.1, h.2.1, h.2.2⟩, fun h => ⟨h.overrides, h.files, h.apart⟩⟩

/-! ### One layer -/

/-- A layer stays silent about a path when a setting is written elsewhere. -/
theorem silent_insert_setting {key setting : String} {value : Value} (hq : KeyPath.Apart [key, setting] q)
    (h : (Value.mapping m).Silent q) :
    (Value.mapping (Entries.insert m key (.mapping (Entries.insert (m.child key) setting value)))).Silent q := by
  obtain ⟨hnone, hmappings⟩ := Value.silent_iff.mp h
  refine Value.silent_iff.mpr ⟨(find?_insert_setting hq).trans hnone, fun front hfront u hu => ?_⟩
  by_cases hbefore : front <+: [key, setting]
  · -- On the way to the setting stand the mapping itself and its section.
    match front, hbefore with
    | [], _ =>
      cases hu
      rfl
    | [first], hbefore =>
      obtain ⟨rfl, -⟩ := List.cons_prefix_cons.mp hbefore
      change Mapping.find? _ [first] = some u at hu
      rw [find?_insert] at hu
      cases hu
      rfl
    | first :: second :: rest, hbefore =>
      rw [hbefore.eq_of_length_le (Nat.le_add_left 2 rest.length)] at hfront
      exact absurd hfront hq.1
  · have hafter : ¬ [key, setting] <+: front := fun hafter => hq.1 (hafter.trans hfront)
    exact hmappings front hfront u ((find?_insert_setting ⟨hafter, hbefore⟩).symm.trans hu)

theorem MergedPath.apart_toggle (hq : MergedPath q) (toggle : Toggle) : KeyPath.Apart ["plugins", toggle.key] q := by
  cases toggle
  · exact hq.apart _ (by decide)
  · exact hq.apart _ (by decide)

theorem find?_carry (hq : KeyPath.Apart ["plugins", toggle.key] q) :
    (toggle.carry current layer).find? q = layer.find? q := by
  unfold Toggle.carry
  split
  · rfl
  · exact find?_insert_setting hq

theorem silent_carry (hq : MergedPath q) (h : (Value.mapping layer).Silent q) :
    (Value.mapping (toggle.carry current layer)).Silent q := by
  unfold Toggle.carry
  split
  · exact h
  · exact silent_insert_setting (hq.apart_toggle toggle) h

theorem find?_reconcileToggles (hq : ∀ toggle : Toggle, KeyPath.Apart ["plugins", toggle.key] q) :
    (reconcileToggles current layer).find? q = layer.find? q := by
  unfold reconcileToggles
  split
  · rw [find?_carry (hq .off), find?_carry (hq .on)]
  · rfl

theorem silent_reconcileToggles (hq : MergedPath q) (h : (Value.mapping layer).Silent q) :
    (Value.mapping (reconcileToggles current layer)).Silent q := by
  unfold reconcileToggles
  split
  · exact silent_carry hq (silent_carry hq h)
  · exact h

/-- The layer decides with what is no mapping. -/
theorem find?_applyLayer_of_leaf (hq : MergedPath q) (hw : (Value.mapping layer).WellKeyed) (hv : v.isMapping = false)
    (h : layer.find? q = some v) : (applyLayer current layer).find? q = some v :=
  find?_merge_of_leaf (wellKeyed_reconcileToggles hw) hv ((find?_reconcileToggles hq.apart_toggle).trans h)

theorem find?_applyLayer_of_silent (hq : MergedPath q) (hw : (Value.mapping layer).WellKeyed)
    (h : (Value.mapping layer).Silent q) : (applyLayer current layer).find? q = current.find? q :=
  find?_merge_of_silent (wellKeyed_reconcileToggles hw) hq.files (silent_reconcileToggles hq h)

/-! ### The whole cascade -/

theorem find?_foldl_applyLayer {rest : List Mapping} (hq : MergedPath q)
    (hw : ∀ layer ∈ rest, (Value.mapping layer).WellKeyed) (hs : ∀ layer ∈ rest, (Value.mapping layer).Silent q) :
    (rest.foldl applyLayer current).find? q = current.find? q := by
  induction rest generalizing current with
  | nil => rfl
  | cons layer rest ih =>
    show (rest.foldl applyLayer (applyLayer current layer)).find? q = _
    rw [ih (fun l hl => hw l (List.mem_cons_of_mem _ hl)) (fun l hl => hs l (List.mem_cons_of_mem _ hl))]
    exact find?_applyLayer_of_silent hq (hw layer List.mem_cons_self) (hs layer List.mem_cons_self)

/-- A path at which a cascade only merges holds in the end what it held at first, if all layers are silent about it. -/
theorem find?_apply_of_silent (hq : MergedPath q) (hw : (Value.mapping config).WellKeyed)
    (hlast : (Value.mapping last).WellKeyed) (hs : ∀ layer ∈ applied config environments, (Value.mapping layer).Silent q)
    (hsilent : (Value.mapping last).Silent q) (h : apply config environments last = .ok final) :
    final.find? q = config.find? q := by
  obtain ⟨current, followed, hcurrent, hfollowed, hstopped⟩ := apply_eq_ok h
  obtain rfl := applyEnvironments_eq_applied hcurrent
  have hwell : ∀ layer ∈ applied config environments, (Value.mapping layer).WellKeyed :=
    wellKeyed_appliedFrom (wellKeyed_start hw environments)
  rw [find?_stopServer_of_apart hstopped (hq.apart _ (by decide)),
    find?_followPublicPath_of_apart hfollowed (hq.apart _ (by decide)), find?_merge_of_silent hlast hq.files hsilent,
    find?_foldl_applyLayer hq hwell hs]
  cases q with
  | nil => exact hsilent.elim
  | cons key q => exact find?_congr (get?_start (fun hkey => hq.overrides (congrArg some hkey)) environments) q

/-- What is written to the server at the end is not seen from elsewhere. -/
theorem find?_apply_of_apart (hq : ∀ target ∈ writtenPaths, KeyPath.Apart target q)
    (hl : ∀ layer ∈ layers config environments, Entries.get? layer "overrides" = none)
    (h : apply config environments last = .ok final) :
    final.find? q = (Mapping.merge .cascade (overlaid config environments) last).find? q := by
  obtain ⟨current, followed, hcurrent, hfollowed, hstopped⟩ := apply_eq_ok h
  obtain rfl := applyEnvironments_eq_overlaid hl hcurrent
  rw [find?_stopServer_of_apart hstopped (hq _ (by decide)),
    find?_followPublicPath_of_apart hfollowed (hq _ (by decide))]

theorem find?_apply_merged (hq : MergedPath q)
    (hl : ∀ layer ∈ layers config environments, Entries.get? layer "overrides" = none)
    (h : apply config environments last = .ok final) :
    final.find? q = (Mapping.merge .cascade (overlaid config environments) last).find? q :=
  find?_apply_of_apart hq.apart hl h

/-- Later layers win. What a layer holds at a path, other than a mapping, stands there in the end if every later
    layer is silent about the path, and what the configuration holds stands if every layer is. -/
theorem find?_apply_later_wins (hw : (Value.mapping config).WellKeyed) (hwl : (Value.mapping last).WellKeyed)
    (hl : ∀ layer ∈ layers config environments, Entries.get? layer "overrides" = none) (hq : MergedPath q)
    (h : apply config environments last = .ok final) :
    (∀ (before : List Mapping) (layer : Mapping) (after : List Mapping) (v : Value),
      layers config environments ++ [last] = before ++ layer :: after → layer.find? q = some v → v.isMapping = false →
      (∀ later ∈ after, (Value.mapping later).Silent q) → final.find? q = some v) ∧
    ((∀ layer ∈ layers config environments ++ [last], (Value.mapping layer).Silent q) →
      final.find? q = config.find? q) := by
  have hwell : ∀ layer ∈ layers config environments, (Value.mapping layer).WellKeyed := fun _ => wellKeyed_layers hw
  have hfinal := find?_apply_merged hq hl h
  constructor
  · intro before layer after v hsplit hlayer hv hlater
    rcases List.eq_nil_or_concat after with rfl | ⟨rest, lastLayer, rfl⟩
    · -- The last layer itself holds the value.
      obtain ⟨-, hlast⟩ := List.append_inj' hsplit rfl
      cases hlast
      rw [hfinal]
      exact find?_merge_of_leaf hwl hv hlayer
    · -- An environment does, and those after it and the last layer leave it.
      rw [List.concat_eq_append, ← List.cons_append, ← List.append_assoc] at hsplit
      obtain ⟨hlayers, hlast⟩ := List.append_inj' hsplit rfl
      cases hlast
      rw [hlayers] at hwell
      rw [hfinal, find?_merge_of_silent hwl hq.files (hlater last (by simp)), overlaid, hlayers, List.foldl_append,
        List.foldl_cons, find?_foldl_applyLayer hq (fun l hl => hwell l (by simp [hl]))
          fun l hl => hlater l (by simp [hl])]
      exact find?_applyLayer_of_leaf hq (hwell layer (by simp)) hv hlayer
  · intro hsilent
    rw [hfinal, find?_merge_of_silent hwl hq.files (hsilent last (by simp)), overlaid,
      find?_foldl_applyLayer hq hwell fun l hl => hsilent l (by simp [hl])]
    cases q with
    | nil => exact absurd List.nil_prefix (hq.apart _ List.mem_cons_self).2
    | cons key q => exact find?_congr (get?_start (fun hkey => hq.overrides (congrArg some hkey)) environments) q

/-- A plugin whose style one environment sets, and another one that names no plugin: the list of plugins is
    carried into its layer. -/
def styledConfig : Mapping := [
  ("plugins", .mapping [
    ("on", .string "sass"), ("sass", .mapping [("style", .string "nested"), ("maps", .bool true)])]),
  ("overrides", .mapping [
    ("production", .mapping [("plugins", .mapping [("sass", .mapping [("style", .string "compressed")])])]),
    ("ci", .mapping [("notifications", .bool false)])])]

theorem find?_apply_styledConfig : ∃ final, apply styledConfig ["production", "ci"] [] = .ok final ∧
    MergedPath ["plugins", "sass", "style"] ∧ MergedPath ["plugins", "sass", "maps"] ∧
    final.find? ["plugins", "sass", "style"] = some (.string "compressed") ∧
    final.find? ["plugins", "sass", "maps"] = some (.bool true) := by
  have hw : (Value.mapping styledConfig).WellKeyed := by decide +kernel
  have hl : ∀ layer ∈ layers styledConfig ["production", "ci"], Entries.get? layer "overrides" = none := by
    decide +kernel
  have hstyle : MergedPath ["plugins", "sass", "style"] := by decide +kernel
  have hmaps : MergedPath ["plugins", "sass", "maps"] := by decide +kernel
  have hok : (apply styledConfig ["production", "ci"] []).isOk = true := by decide +kernel
  obtain ⟨final, h⟩ := exists_ok_of_isOk hok
  obtain ⟨hlayer, -⟩ := find?_apply_later_wins hw Value.wellKeyed_nil hl hstyle h
  obtain ⟨-, hbase⟩ := find?_apply_later_wins hw Value.wellKeyed_nil hl hmaps h
  refine ⟨final, h, hstyle, hmaps, hlayer [] _ _ _ rfl rfl rfl (by decide +kernel), (hbase ?_).trans rfl⟩
  decide +kernel

end AssetPlan.Cascade
