import AssetPlan.Proofs.Cascade.Layers

/-! # Routing keys come from one layer

`joinTo` and `entryPoints` of an asset type are replaced together: a layer that has one of them decides both,
so after a cascade both are those of the last layer that has one. A merge goes through three cases, as only
the layer, only the base, or both have a section for the asset type. -/

namespace AssetPlan.Cascade
open Mapping
variable {type : String} {base layer m : Mapping} {environments : List String} {config last final : Mapping}

/-- `files` and its section for an asset type, where they are present, are mappings. -/
structure FilesShaped (type : String) (m : Mapping) : Prop where
  files : ∀ v, Entries.get? m "files" = some v → v.isMapping = true
  fields : ∀ v, m.find? ["files", type] = some v → v.isMapping = true

instance : Decidable (FilesShaped type m) :=
  decidable_of_iff ((Entries.get? m "files").all Value.isMapping = true ∧
      (m.find? ["files", type]).all Value.isMapping = true)
    ⟨fun h => ⟨(Option.all_eq_true _ _).mp h.1, (Option.all_eq_true _ _).mp h.2⟩,
      fun h => ⟨(Option.all_eq_true _ _).mpr h.files, (Option.all_eq_true _ _).mpr h.fields⟩⟩

/-- `joinTo` and `entryPoints` of a section, unless it has neither. -/
def routingKeys? (joinTo entryPoints : Option Value) : Option (Option Value × Option Value) :=
  if joinTo.isSome ∨ entryPoints.isSome then some (joinTo, entryPoints) else none

/-- `joinTo` and `entryPoints` of an asset type, unless the configuration has neither. -/
def routingOf? (type : String) (m : Mapping) : Option (Option Value × Option Value) :=
  routingKeys? (m.find? ["files", type, "joinTo"]) (m.find? ["files", type, "entryPoints"])

/-- `joinTo` and `entryPoints` of the fields of a section. -/
def fieldsRouting? (fields : Mapping) : Option (Option Value × Option Value) :=
  routingKeys? (Entries.get? fields "joinTo") (Entries.get? fields "entryPoints")

/-! ### The section of an asset type -/

/-- The section of an asset type. -/
def fieldsOf? (type : String) (m : Mapping) : Option Mapping := (m.find? ["files", type]).bind Value.mapping?

theorem find?_section (hm : FilesShaped type m) : m.find? ["files", type] = (fieldsOf? type m).map .mapping := by
  unfold fieldsOf?
  cases hv : m.find? ["files", type] with
  | none => rfl
  | some v =>
    cases v with
    | mapping fields => rfl
    | _ => cases hm.fields _ hv

theorem fieldsOf?_of_no_files (h : Entries.get? m "files" = none) : fieldsOf? type m = none := by
  unfold fieldsOf?
  rw [find?_cons_eq, h]
  rfl

theorem find?_fieldsOf (hm : FilesShaped type m) (key : String) :
    m.find? ["files", type, key] = (fieldsOf? type m).bind (Entries.get? · key) := by
  have hsplit : m.find? ["files", type, key] = (m.find? ["files", type]).bind (Value.find? · [key]) :=
    Value.find?_append (.mapping m) ["files", type] [key]
  rw [hsplit, find?_section hm]
  cases fieldsOf? type m with
  | none => rfl
  | some fields => exact find?_singleton fields key

theorem routingOf?_eq (hm : FilesShaped type m) : routingOf? type m = (fieldsOf? type m).bind fieldsRouting? := by
  unfold routingOf?
  rw [find?_fieldsOf hm, find?_fieldsOf hm]
  cases fieldsOf? type m <;> rfl

theorem filesShaped_congr {m' : Mapping} (h : Entries.get? m' "files" = Entries.get? m "files")
    (hm : FilesShaped type m) : FilesShaped type m' where
  files v hv := hm.files v (h ▸ hv)
  fields v hv := hm.fields v (find?_congr h [type] ▸ hv)

theorem routingOf?_congr {m' : Mapping} (h : Entries.get? m' "files" = Entries.get? m "files") :
    routingOf? type m' = routingOf? type m := by
  unfold routingOf?
  rw [find?_congr h, find?_congr h]

/-! ### One layer -/

/-- The section that a merge leaves: that of the one side that has one, or the children of both. -/
def replaceFields : Option Mapping → Option Mapping → Option Mapping
  | old, none => old
  | none, some new => some new
  | some old, some new => some (Entries.insertAll (MergePolicy.cascade.resetPairs old new) new)

/-- The layer decides both keys as soon as it has one of them. -/
theorem fieldsRouting?_replaceFields {old new : Option Mapping} (hw : ∀ fields, new = some fields → Entries.WellKeyed fields) :
    (replaceFields old new).bind fieldsRouting? = (new.bind fieldsRouting?).or (old.bind fieldsRouting?) := by
  cases new with
  | none => cases old <;> rfl
  | some new =>
    have hwell := hw new rfl
    cases old with
    | none => exact (Option.or_none).symm
    | some old =>
      -- The two keys are the one pair of the cascade: either of them in the layer resets the other.
      have hreset : MergePolicy.cascade.resetPairs old new =
          MergePolicy.resetPair old new ("joinTo", "entryPoints") := rfl
      show fieldsRouting? (Entries.insertAll _ new) = (fieldsRouting? new).or (fieldsRouting? old)
      unfold fieldsRouting?
      rw [Entries.get?_insertAll hwell, Entries.get?_insertAll hwell, hreset]
      unfold MergePolicy.resetPair Entries.has
      cases Entries.get? new "joinTo" with
      | none =>
        cases Entries.get? new "entryPoints" with
        | none => rfl
        | some entryPoints =>
          show routingKeys? (Entries.get? (Entries.erase old "joinTo") "joinTo") (some entryPoints) = _
          rw [Entries.get?_erase, if_pos rfl]
          rfl
      | some joinTo =>
        cases Entries.get? new "entryPoints" with
        | none =>
          show routingKeys? (some joinTo) (Entries.get? (Entries.erase old "entryPoints") "entryPoints") = _
          rw [Entries.get?_erase, if_pos rfl]
          rfl
        | some entryPoints => rfl

theorem find?_merge_section (hw : (Value.mapping layer).WellKeyed) (hb : FilesShaped type base)
    (hl : FilesShaped type layer) :
    (Mapping.merge .cascade base layer).find? ["files", type] =
      (replaceFields (fieldsOf? type base) (fieldsOf? type layer)).map .mapping := by
  have hbase := find?_section hb
  have hlayer := find?_section hl
  cases hlf : Entries.get? layer "files" with
  | none =>
    -- The layer says nothing about files: the section is that of the base.
    rw [fieldsOf?_of_no_files hlf, find?_congr (get?_merge_of_none hlf), hbase]
    cases fieldsOf? type base <;> rfl
  | some lv =>
    cases lv with
    | mapping lf =>
      have hmerged : Entries.get? (Mapping.merge .cascade base layer) "files" =
          some (Value.mergeOver .cascade ["files"] (Entries.get? base "files") (.mapping lf)) :=
        get?_merge_of_some hw.1 hlf
      rw [find?_of_get? hlf] at hlayer
      cases hbf : Entries.get? base "files" with
      | none =>
        -- Only the layer has files, so they are taken as they stand.
        rw [hbf] at hmerged
        rw [fieldsOf?_of_no_files hbf, find?_of_get? hmerged, hlayer]
        cases fieldsOf? type layer <;> rfl
      | some bv =>
        cases bv with
        | mapping bf =>
          rw [hbf] at hmerged
          -- Both have files. These are merged key by key, and the section is one of their keys.
          have hplain : MergePolicy.cascade.replaces ["files"] = false := by decide
          have hfiles : Value.mergeOver .cascade ["files"] (some (.mapping bf)) (.mapping lf) =
              .mapping (Value.mergeEntries .cascade ["files"] bf lf) := Value.mergeAt_merged hplain
          rw [hfiles] at hmerged
          rw [find?_of_get? hbf] at hbase
          rw [find?_of_get? hmerged]
          cases hnew : fieldsOf? type layer with
          | none =>
            rw [hnew] at hlayer
            rw [Value.get?_mergeEntries_of_none hlayer, hbase]
            cases fieldsOf? type base <;> rfl
          | some new =>
            rw [hnew] at hlayer
            rw [Value.get?_mergeEntries_of_some (hw.get? hlf).1 hlayer, hbase]
            cases fieldsOf? type base with
            | none => rfl
            | some old =>
              -- Sections for the same asset type: here the merge is not plain but starts with the resets.
              have hreplaced : MergePolicy.cascade.replaces ["files", type] = true :=
                MergePolicy.cascade_replaces_iff.mpr ⟨type, rfl⟩
              exact congrArg some (Value.mergeAt_replaced hreplaced)
        | _ => cases hb.files _ hbf
    | _ => cases hl.files _ hlf

theorem filesShaped_merge (hw : (Value.mapping layer).WellKeyed) (hb : FilesShaped type base)
    (hl : FilesShaped type layer) : FilesShaped type (Mapping.merge .cascade base layer) where
  files v hv := by
    cases hlf : Entries.get? layer "files" with
    | none =>
      rw [get?_merge_of_none hlf] at hv
      exact hb.files v hv
    | some lv =>
      rw [get?_merge_of_some hw.1 hlf] at hv
      cases hv
      exact Value.isMapping_mergeOver _ (hl.files lv hlf)
  fields v hv := by
    rw [find?_merge_section hw hb hl] at hv
    obtain ⟨fields, -, rfl⟩ := Option.map_eq_some_iff.mp hv
    rfl

/-- One merge: the layer's routing keys if it has any, otherwise those from before. -/
theorem routingOf?_merge (hw : (Value.mapping layer).WellKeyed) (hb : FilesShaped type base)
    (hl : FilesShaped type layer) :
    routingOf? type (Mapping.merge .cascade base layer) = (routingOf? type layer).or (routingOf? type base) := by
  have hfields : fieldsOf? type (Mapping.merge .cascade base layer) =
      replaceFields (fieldsOf? type base) (fieldsOf? type layer) := by
    rw [fieldsOf?, find?_merge_section hw hb hl]
    cases replaceFields (fieldsOf? type base) (fieldsOf? type layer) <;> rfl
  rw [routingOf?_eq (filesShaped_merge hw hb hl), routingOf?_eq hb, routingOf?_eq hl, hfields]
  refine fieldsRouting?_replaceFields fun fields hfields => ?_
  have hsection : layer.find? ["files", type] = some (.mapping fields) := by
    rw [find?_section hl, hfields]
    rfl
  exact (hw.find? hsection).1

/-! ### The whole cascade -/

theorem routingOf?_applyLayer (hw : (Value.mapping layer).WellKeyed) (hb : FilesShaped type base)
    (hl : FilesShaped type layer) :
    FilesShaped type (applyLayer base layer) ∧
      routingOf? type (applyLayer base layer) = (routingOf? type layer).or (routingOf? type base) := by
  have hsame : Entries.get? (reconcileToggles base layer) "files" = Entries.get? layer "files" :=
    get?_reconcileToggles (by decide)
  have hw' : (Value.mapping (reconcileToggles base layer)).WellKeyed := wellKeyed_reconcileToggles hw
  have hl' := filesShaped_congr hsame hl
  refine ⟨filesShaped_merge hw' hb hl', ?_⟩
  rw [← routingOf?_congr hsame]
  exact routingOf?_merge hw' hb hl'

/-- After a cascade that no layer with `overrides` takes part in, the routing keys of an asset type are those
    of the last layer that has any, the configuration itself being the first. -/
theorem routing_apply_last_layer (hw : (Value.mapping config).WellKeyed) (hwl : (Value.mapping last).WellKeyed)
    (hl : ∀ layer ∈ layers config environments, Entries.get? layer "overrides" = none)
    (hs : ∀ layer ∈ config :: layers config environments ++ [last], FilesShaped type layer)
    (h : apply config environments last = .ok final) :
    routingOf? type final =
      ((config :: layers config environments ++ [last]).filterMap (routingOf? type)).getLast? := by
  have hstart : Entries.get? (start config environments) "files" = Entries.get? config "files" :=
    get?_start (by decide) environments
  have hbase := filesShaped_congr hstart (hs config (by simp))
  -- The environments, by induction over their layers.
  obtain ⟨hshaped, hrun⟩ := overlaid_last_word (fun layer hmem base hb =>
    routingOf?_applyLayer (wellKeyed_layers hw hmem) hb (hs layer (by simp [hmem]))) hbase
  -- The last layer, over what they leave.
  have hlast := routingOf?_merge hwl hshaped (hs last (by simp))
  have hfinal := get?_apply hl h (show "files" ≠ "server" by decide)
  rw [routingOf?_congr hfinal, hlast, hrun, routingOf?_congr hstart, ← getLast?_filterMap_cons,
    List.filterMap_append, List.getLast?_append, getLast?_filterMap_cons (routingOf? type) last []]
  rfl

/-- A layout of bundles that one environment replaces by entry points, with a second one that only sets an
    order. -/
def bundledConfig : Mapping := [
  ("files", .mapping [("javascripts", .mapping [("joinTo", .string "app.js")])]),
  ("overrides", .mapping [
    ("split", .mapping [
      ("files", .mapping [("javascripts", .mapping [("entryPoints", .mapping [("app/main.js", .string "main.js")])])])]),
    ("ordered", .mapping [
      ("files", .mapping [("javascripts", .mapping [("order", .mapping [("before", .string "vendor/*")])])])])])]

theorem routing_apply_bundledConfig : ∃ final, apply bundledConfig ["split", "ordered"] [] = .ok final ∧
    (Value.mapping bundledConfig).WellKeyed ∧
    (∀ layer ∈ bundledConfig :: layers bundledConfig ["split", "ordered"] ++ [[]], FilesShaped "javascripts" layer) ∧
    routingOf? "javascripts" final = some (none, some (.mapping [("app/main.js", .string "main.js")])) := by
  have hw : (Value.mapping bundledConfig).WellKeyed := by decide +kernel
  have hl : ∀ layer ∈ layers bundledConfig ["split", "ordered"], Entries.get? layer "overrides" = none := by
    decide +kernel
  have hs : ∀ layer ∈ bundledConfig :: layers bundledConfig ["split", "ordered"] ++ [[]],
      FilesShaped "javascripts" layer := by
    decide +kernel
  have hok : (apply bundledConfig ["split", "ordered"] []).isOk = true := by decide +kernel
  obtain ⟨final, h⟩ := exists_ok_of_isOk hok
  exact ⟨final, h, hw, hs, (routing_apply_last_layer hw Value.wellKeyed_nil hl hs h).trans rfl⟩

end AssetPlan.Cascade
