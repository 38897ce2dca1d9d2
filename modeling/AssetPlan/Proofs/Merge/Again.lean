import AssetPlan.Proofs.Merge.Order

/-! # A layer that is merged twice

What a merge makes of a base holds its layer: every entry of the layer stands there as the merge left it, and the
partners that the layer drops at a replace node are gone. So the layer leaves no trace when it is merged once more. -/

namespace AssetPlan.Value
variable {policy : MergePolicy} {path : List String} {bs ls : Mapping} {new : Value}

/-! ### One level -/

/-- No partner that the layer drops is left at a replace node, so nothing is dropped again. -/
theorem resetPairs_replaced (hw : Entries.WellKeyed ls) :
    policy.resetPairs (Entries.insertAll (policy.resetPairs bs ls) ls) ls =
      Entries.insertAll (policy.resetPairs bs ls) ls := by
  rw [MergePolicy.resetPairs_eq_filter]
  refine List.filter_eq_self.mpr fun e he => decide_eq_true fun hdrops => ?_
  have hkey : e.1 ∈ Entries.keys (Entries.insertAll (policy.resetPairs bs ls) ls) := List.mem_map_of_mem he
  rw [keys_replaced hw, List.mem_append, List.mem_filter, List.mem_filter] at hkey
  rcases hkey with ⟨-, hkept⟩ | ⟨hlayer, -⟩
  · exact of_decide_eq_true hkept hdrops
  · exact hdrops.1 hlayer

/-- The entries of the layer stand at a replace node as the layer has them. -/
theorem mergeAt_replaced_again (hw : Entries.WellKeyed ls) (hr : policy.replaces path = true) :
    mergeAt policy path (.mapping (Entries.insertAll (policy.resetPairs bs ls) ls)) (.mapping ls) =
      .mapping (Entries.insertAll (policy.resetPairs bs ls) ls) := by
  rw [mergeAt_replaced hr, resetPairs_replaced hw, Entries.insertAll_of_held]
  intro e he
  rw [Entries.get?_insertAll hw, Entries.get?_of_mem hw he, Option.some_or]

/-- An entry of the layer changes nothing where a merge has left it, if it changes nothing in what it was merged over
    and in itself. -/
theorem mergeAt_mergeOver (hself : mergeAt policy path new new = new)
    (hagain : ∀ old, mergeAt policy path (mergeAt policy path old new) new = mergeAt policy path old new)
    (old : Option Value) : mergeAt policy path (mergeOver policy path old new) new = mergeOver policy path old new := by
  cases old with
  | none => exact hself
  | some old => exact hagain old

/-! ### Every level -/

mutual

/-- The induction is on the layer. The tree that the layer is merged over once more has other sections than the first
    one, so the base and the path are left open; a section that only the layer has is merged over itself. -/
theorem mergeAt_again : ∀ {layer : Value} (base : Value) (path : List String), layer.WellKeyed →
    mergeAt policy path (mergeAt policy path base layer) layer = mergeAt policy path base layer
  | .mapping ls, base, path, hw => by
    rcases mappings_or_not base (.mapping ls) with ⟨bs, _, rfl, hlayer⟩ | hbase | hlayer
    · cases hlayer
      cases hr : policy.replaces path with
      | true =>
        rw [mergeAt_replaced hr]
        exact mergeAt_replaced_again hw.1 hr
      | false =>
        rw [mergeAt_merged hr, mergeAt_merged hr, mergeEntries_of_held]
        intro e he
        refine ⟨_, get?_mergeEntries_of_some hw.1 (Entries.get?_of_mem hw.1 he), mergeAt_mergeOver ?_ ?_ _⟩
        · exact mergeAt_self_of_mem hw.2 e he _
        · exact fun old => mergeAt_again_of_mem hw.2 e he old _
    · rw [mergeAt_over_not_mapping hbase]
      exact mergeAt_self hw
    · cases hlayer
  | .null, _, _, _ | .bool _, _, _, _ | .number _, _, _, _ | .string _, _, _, _ | .list _, _, _, _ | .regex _, _, _, _
  | .predicate _, _, _, _ => rfl
termination_by structural layer => layer

theorem mergeAt_again_of_mem : ∀ {es : List (String × Value)}, EntriesWellKeyed es →
    ∀ e ∈ es, ∀ (base : Value) (path : List String),
      mergeAt policy path (mergeAt policy path base e.2) e.2 = mergeAt policy path base e.2
  | [], _, e, he, _, _ => nomatch he
  | (key, v) :: rest, hw, e, he, base, path => by
    rcases List.mem_cons.mp he with rfl | he
    · exact mergeAt_again base path hw.1
    · exact mergeAt_again_of_mem hw.2 e he base path
termination_by structural es => es

end

/-- Merging the same layer once more changes nothing, under every policy and down to the order of keys, and neither
    does merging a tree over itself. -/
theorem merge_again (policy : MergePolicy) (base : Value) {layer : Value} (hw : layer.WellKeyed) :
    merge policy (merge policy base layer) layer = merge policy base layer ∧ merge policy layer layer = layer :=
  ⟨mergeAt_again base [] hw, mergeAt_self hw⟩

/-- A policy in which the entry points are paired with two other keys. -/
def overlapping : MergePolicy :=
  (MergePolicy.deep.replacing ["files", "*"]).pairing "joinTo" "entryPoints" |>.pairing "entryPoints" "pluginHelpers"

/-- A layer that enters the scripts elsewhere and sets an option that the base does not have. -/
def reenteredScripts : Value :=
  .mapping [("optimize", .bool true),
    ("files", .mapping [("javascripts", .mapping [("entryPoints", .mapping [("app/other.js", .string "other.js")])])])]

/-- Both partners of the entry points go with the first merge, the new option comes last, and the second merge leaves
    all of it. -/
theorem merge_again_reenteredScripts :
    reenteredScripts.WellKeyed ∧
    merge overlapping enteredScripts reenteredScripts = .mapping [
      ("files", .mapping [("javascripts", .mapping [("entryPoints", .mapping [("app/other.js", .string "other.js")])])]),
      ("optimize", .bool true)] ∧
    merge overlapping (merge overlapping enteredScripts reenteredScripts) reenteredScripts =
      merge overlapping enteredScripts reenteredScripts ∧
    merge overlapping reenteredScripts reenteredScripts = reenteredScripts := by
  have hw : reenteredScripts.WellKeyed := by decide
  exact ⟨hw, rfl, merge_again overlapping enteredScripts hw⟩

end AssetPlan.Value
