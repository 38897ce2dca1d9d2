import AssetPlan.Proofs.Merge

/-! # The order of keys in a merged tree

A merge writes into the base, so the keys of the base keep their places and those that only the layer has follow
in its order. Whatever is not merged key by key is a subtree of the layer or of the base, as it stands there. -/

namespace AssetPlan.Value
variable {policy : MergePolicy} {path q : List String} {bs ls : Mapping} {base layer v : Value}

/-! ### One level -/

theorem keys_mergeEntries (hw : Entries.WellKeyed ls) :
    Entries.keys (mergeEntries policy path bs ls) = Entries.keys bs ++ (Entries.keys ls).filter (· ∉ Entries.keys bs) := by
  induction ls generalizing bs with
  | nil => exact (List.append_nil _).symm
  | cons e rest ih =>
    obtain ⟨key, v⟩ := e
    obtain ⟨hkey, hrest⟩ := Entries.wellKeyed_cons.mp hw
    rw [mergeEntries_cons, ih hrest]
    exact Entries.keys_insert_append (Entries.get?_eq_none_iff.mp hkey) bs _

/-- Dropped partners are no keys of the layer, so they do not come back behind the keys of the base. -/
theorem keys_replaced (hw : Entries.WellKeyed ls) :
    Entries.keys (Entries.insertAll (policy.resetPairs bs ls) ls) =
      ((Entries.keys bs).filter fun key => ¬ policy.Drops ls key) ++ (Entries.keys ls).filter (· ∉ Entries.keys bs) := by
  rw [Entries.keys_insertAll hw, MergePolicy.keys_resetPairs]
  refine congrArg _ (List.filter_congr fun key hkey => ?_)
  have hkept : ¬ policy.Drops ls key := fun h => h.1 hkey
  simp [hkept]

/-- The keys of two merged mappings: those of the base without the dropped partners of a replace node, then those
    that only the layer has. -/
theorem exists_mergeAt_mapping (policy : MergePolicy) (path : List String) (bs : Mapping) (hw : Entries.WellKeyed ls) :
    ∃ ms, mergeAt policy path (.mapping bs) (.mapping ls) = .mapping ms ∧
      Entries.keys ms = ((Entries.keys bs).filter fun key => ¬ (policy.replaces path = true ∧ policy.Drops ls key)) ++
        (Entries.keys ls).filter (· ∉ Entries.keys bs) := by
  cases hr : policy.replaces path with
  | true =>
    refine ⟨_, mergeAt_replaced hr, (keys_replaced hw).trans ?_⟩
    simp
  | false =>
    refine ⟨_, mergeAt_merged hr, (keys_mergeEntries hw).trans (congrArg (· ++ _) (Eq.symm ?_))⟩
    exact List.filter_eq_self.mpr fun key _ => by simp

/-! ### Every level -/

/-- What is not merged key by key is taken whole: from the layer if it holds something there, else from the base. -/
theorem mergedAt_or_taken (hw : layer.WellKeyed) (h : (mergeAt policy path base layer).find? q = some v) :
    (∃ bs ls, MergedAt policy path base layer q bs ls) ∨
      layer.find? q = some v ∨ layer.find? q = none ∧ base.find? q = some v := by
  induction q generalizing path base layer with
  | nil =>
    rcases mappings_or_not base layer with ⟨bs, ls, rfl, rfl⟩ | hbase | hlayer
    · exact .inl ⟨bs, ls, .nil policy path bs ls⟩
    · rw [mergeAt_over_not_mapping hbase] at h
      exact .inr (.inl h)
    · rw [mergeAt_of_not_mapping hlayer] at h
      exact .inr (.inl h)
  | cons key q ih =>
    rcases mappings_or_not base layer with ⟨bs, ls, rfl, rfl⟩ | hbase | hlayer
    · rw [find?_mapping, find?_mapping]
      cases hr : policy.replaces path with
      -- A replace node takes whole what the layer has under a key, and keeps the rest but for dropped partners.
      | true =>
        rw [find?_mergeAt_replaced hw.1 hr] at h
        cases hnew : Entries.get? ls key with
        | some new =>
          rw [hnew] at h
          exact .inr (.inl h)
        | none =>
          rw [hnew, Option.none_or] at h
          split at h
          · cases h
          · exact .inr (.inr ⟨rfl, h⟩)
      | false =>
        cases hnew : Entries.get? ls key with
        | none =>
          rw [find?_mergeAt_of_none hr hnew] at h
          exact .inr (.inr ⟨rfl, h⟩)
        | some new =>
          rw [find?_mergeAt_of_some hw.1 hr hnew] at h
          -- Only where both have something under the key does the merge go on below.
          cases hold : Entries.get? bs key with
          | none =>
            rw [hold] at h
            exact .inr (.inl h)
          | some old =>
            rw [hold] at h
            rcases ih (hw.get? hnew) h with ⟨ms, ns, hmerged⟩ | htaken
            · exact .inl ⟨ms, ns, hmerged.cons hold hnew hr⟩
            · exact .inr htaken
    · rw [mergeAt_over_not_mapping hbase] at h
      exact .inr (.inl h)
    · rw [mergeAt_of_not_mapping hlayer] at h
      exact .inr (.inl h)

/-- A merge keeps the order of keys. Where two mappings are merged, also at a replace node, the keys of the base stand
    in its order, without the partners that the node drops, and the keys that only the layer has follow in its order.
    Every other subtree is one of the layer or of the base, unchanged down to the order of its keys. -/
theorem merge_keeps_order (policy : MergePolicy) (base layer : Value) (hw : layer.WellKeyed) :
    (∀ q bs ls, MergedAt policy [] base layer q bs ls → ∃ ms, (merge policy base layer).find? q = some (.mapping ms) ∧
      Entries.keys ms = ((Entries.keys bs).filter fun key => ¬ (policy.replaces q = true ∧ policy.Drops ls key)) ++
        (Entries.keys ls).filter (· ∉ Entries.keys bs)) ∧
    (∀ q v, (merge policy base layer).find? q = some v → (∃ bs ls, MergedAt policy [] base layer q bs ls) ∨
      layer.find? q = some v ∨ layer.find? q = none ∧ base.find? q = some v) := by
  refine ⟨fun q bs ls h => ?_, fun q v h => mergedAt_or_taken hw h⟩
  obtain ⟨ms, hms, hkeys⟩ := exists_mergeAt_mapping policy q bs (hw.find? h.layer).1
  exact ⟨ms, hms ▸ h.find?_mergeAt hw, hkeys⟩

/-- A layer that orders the scripts and joins them anew. -/
def orderedScripts : Value :=
  .mapping [("files", .mapping [("javascripts", .mapping [("order", .mapping [("before", .string "lib.js")]),
    ("joinTo", .mapping [("z.js", .string "z/**"), ("a.js", .string "a/**")])])])]

/-- The entry points go, the other keys keep their places, the order comes last, and the new bundles stay as the
    layer lists them. -/
theorem merge_keeps_order_orderedScripts :
    orderedScripts.WellKeyed ∧
    (∃ ms, (merge .cascade enteredScripts orderedScripts).find? ["files", "javascripts"] = some (.mapping ms) ∧
      Entries.keys ms = ["joinTo", "pluginHelpers", "order"]) ∧
    (∀ v, (merge .cascade enteredScripts orderedScripts).find? ["files", "javascripts", "joinTo"] = some v →
      v = .mapping [("z.js", .string "z/**"), ("a.js", .string "a/**")]) := by
  have hw : orderedScripts.WellKeyed := by decide
  obtain ⟨hmerged, htaken⟩ := merge_keeps_order .cascade enteredScripts orderedScripts hw
  refine ⟨hw, ?_, fun v hv => ?_⟩
  · obtain ⟨ms, hms, hkeys⟩ := hmerged ["files", "javascripts"] _ _ (mergedAt_section rfl rfl)
    refine ⟨ms, hms, hkeys.trans ?_⟩
    decide
  · rcases htaken _ v hv with ⟨bs, ls, h⟩ | h | ⟨h, -⟩
    · have hreplaced := h.before ["files", "javascripts"] (by decide) (by decide)
      exact absurd hreplaced (by decide)
    · exact (Option.some.inj h).symm
    · cases h

end AssetPlan.Value
