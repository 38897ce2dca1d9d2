import AssetPlan.Merge
import AssetPlan.Proofs.Value.Path
import AssetPlan.Proofs.Value.WellKeyed

/-! # One level of a merge

What a merge makes of two mappings: the entries of the layer are merged into the base one after the other, or at
a replace node they are written over it after the partners that the layer leaves out were dropped. Either way a
tree without a key twice comes out, and a layer that the base holds already changes nothing. -/

namespace AssetPlan

/-! ### Dropped partners -/

namespace MergePolicy
variable {policy : MergePolicy} {layer : Mapping} {key : String}

/-- Two keys are paired. -/
def Paired (policy : MergePolicy) (a b : String) : Prop := (a, b) ∈ policy.pairs ∨ (b, a) ∈ policy.pairs

/-- A replace node drops a key of the base: the layer leaves the key out and has one that is paired with it. -/
def Drops (policy : MergePolicy) (layer : Mapping) (key : String) : Prop :=
  key ∉ Entries.keys layer ∧ ∃ partner ∈ Entries.keys layer, policy.Paired key partner

instance (policy : MergePolicy) (layer : Mapping) : DecidablePred (policy.Drops layer) := fun _ =>
  inferInstanceAs (Decidable (_ ∧ ∃ partner ∈ Entries.keys layer, _ ∨ _))

theorem drops_cons {nodes : List (List String)} {pairs : List (String × String)} {a b : String} :
    Drops ⟨nodes, (a, b) :: pairs⟩ layer key ↔
      (key ∉ Entries.keys layer ∧ (key = a ∧ b ∈ Entries.keys layer ∨ key = b ∧ a ∈ Entries.keys layer)) ∨
        Drops ⟨nodes, pairs⟩ layer key := by
  unfold Drops Paired
  simp only [List.mem_cons, Prod.mk.injEq]
  grind

theorem resetPair_eq_filter (base layer : Mapping) (a b : String) :
    resetPair base layer (a, b) = base.filter fun e =>
      ¬ (e.1 ∉ Entries.keys layer ∧ (e.1 = a ∧ b ∈ Entries.keys layer ∨ e.1 = b ∧ a ∈ Entries.keys layer)) := by
  unfold resetPair Entries.erase
  simp only [← Entries.has_iff_mem_keys]
  cases ha : Entries.has layer a <;> cases hb : Entries.has layer b
  · exact (List.filter_eq_self.mpr fun e _ => by simp).symm
  · refine List.filter_congr fun e _ => ?_
    by_cases he : e.1 = a <;> simp [he, ha]
  · refine List.filter_congr fun e _ => ?_
    by_cases he : e.1 = b <;> simp [he, hb]
  · refine (List.filter_eq_self.mpr fun e _ => ?_).symm
    by_cases he : e.1 = a
    · simp [he, ha]
    · by_cases he : e.1 = b <;> simp [*]

/-- Resetting pairs drops the partners that the layer leaves out and keeps the order of the rest. -/
theorem resetPairs_eq_filter (base layer : Mapping) :
    policy.resetPairs base layer = base.filter fun e => ¬ policy.Drops layer e.1 := by
  obtain ⟨nodes, pairs⟩ := policy
  unfold resetPairs
  induction pairs generalizing base with
  | nil => exact (List.filter_eq_self.mpr fun e _ => by simp [Drops, Paired]).symm
  | cons pair pairs ih =>
    obtain ⟨a, b⟩ := pair
    rw [List.foldl_cons, ih, resetPair_eq_filter, List.filter_filter]
    exact List.filter_congr fun e _ => by simp only [drops_cons, not_or, Bool.decide_and, Bool.and_comm]

theorem get?_resetPairs (base layer : Mapping) (key : String) :
    Entries.get? (policy.resetPairs base layer) key = if policy.Drops layer key then none else Entries.get? base key := by
  rw [resetPairs_eq_filter, Entries.get?_filter_keys fun key => ¬ policy.Drops layer key]
  by_cases h : policy.Drops layer key <;> simp [h]

theorem keys_resetPairs (base layer : Mapping) :
    Entries.keys (policy.resetPairs base layer) = (Entries.keys base).filter fun key => ¬ policy.Drops layer key := by
  rw [resetPairs_eq_filter]
  unfold Entries.keys
  rw [List.filter_map]
  rfl

end MergePolicy

namespace Value
variable {policy : MergePolicy} {path : List String} {base layer : Mapping} {key : String} {v : Value}

/-- What a merge leaves under a key for which the layer has a value. -/
def mergeOver (policy : MergePolicy) (path : List String) (old : Option Value) (v : Value) : Value :=
  match old with
  | some old => mergeAt policy path old v
  | none => v

theorem mergeEntries_cons (rest : List (String × Value)) :
    mergeEntries policy path base ((key, v) :: rest) =
      mergeEntries policy path
        (Entries.insert base key (mergeOver policy (path ++ [key]) (Entries.get? base key) v)) rest := by
  rw [mergeEntries]
  cases Entries.get? base key <;> rfl

theorem get?_mergeEntries_of_none (h : Entries.get? layer key = none) :
    Entries.get? (mergeEntries policy path base layer) key = Entries.get? base key := by
  induction layer generalizing base with
  | nil => rfl
  | cons e rest ih =>
    obtain ⟨k, v⟩ := e
    rw [Entries.get?_cons] at h
    split at h
    · cases h
    · rename_i hk
      rw [mergeEntries_cons, ih h, Entries.get?_insert, if_neg hk]

theorem get?_mergeEntries_of_some (hw : Entries.WellKeyed layer) (h : Entries.get? layer key = some v) :
    Entries.get? (mergeEntries policy path base layer) key =
      some (mergeOver policy (path ++ [key]) (Entries.get? base key) v) := by
  induction layer generalizing base with
  | nil => cases h
  | cons e rest ih =>
    obtain ⟨k, v'⟩ := e
    obtain ⟨hk, hrest⟩ := Entries.wellKeyed_cons.mp hw
    rw [mergeEntries_cons]
    rw [Entries.get?_cons] at h
    split at h
    · rename_i hkey
      cases h
      subst hkey
      rw [get?_mergeEntries_of_none hk, Entries.get?_insert, if_pos rfl]
    · rename_i hkey
      rw [ih hrest h, Entries.get?_insert, if_neg hkey]

theorem mergeAt_of_not_mapping {base layer : Value} (h : layer.isMapping = false) :
    mergeAt policy path base layer = layer := by
  cases layer with
  | mapping es => cases h
  | _ => rfl

theorem mergeAt_over_not_mapping {base : Value} (h : base.isMapping = false) (layer : Value) :
    mergeAt policy path base layer = layer := by
  cases layer with
  | mapping es =>
    cases base with
    | mapping es' => cases h
    | _ => rfl
  | _ => rfl

/-- Only a mapping over a mapping is merged; in the other cases the layer is taken. -/
theorem mappings_or_not (base layer : Value) :
    (∃ bs ls, base = .mapping bs ∧ layer = .mapping ls) ∨ base.isMapping = false ∨ layer.isMapping = false := by
  cases base with
  | mapping bs =>
    cases layer with
    | mapping ls => exact .inl ⟨bs, ls, rfl, rfl⟩
    | _ => exact .inr (.inr rfl)
  | _ => exact .inr (.inl rfl)

theorem mergeAt_replaced (h : policy.replaces path = true) :
    mergeAt policy path (.mapping base) (.mapping layer) =
      .mapping (Entries.insertAll (policy.resetPairs base layer) layer) := by
  rw [mergeAt]
  exact if_pos h

theorem mergeAt_merged (h : policy.replaces path = false) :
    mergeAt policy path (.mapping base) (.mapping layer) = .mapping (mergeEntries policy path base layer) := by
  rw [mergeAt]
  exact if_neg (by simp [h])

theorem get?_replaced (hw : Entries.WellKeyed layer) :
    Entries.get? (Entries.insertAll (policy.resetPairs base layer) layer) key =
      (Entries.get? layer key).or (if policy.Drops layer key then none else Entries.get? base key) := by
  rw [Entries.get?_insertAll hw, MergePolicy.get?_resetPairs]

theorem mergeOver_of_not_mapping (old : Option Value) (h : v.isMapping = false) : mergeOver policy path old v = v := by
  cases old with
  | none => rfl
  | some old => exact mergeAt_of_not_mapping h

theorem mergeEntries_append (front back : Mapping) :
    mergeEntries policy path base (front ++ back) = mergeEntries policy path (mergeEntries policy path base front) back := by
  induction front generalizing base with
  | nil => rfl
  | cons e front ih =>
    obtain ⟨key, v⟩ := e
    rw [List.cons_append, mergeEntries_cons, mergeEntries_cons, ih]

theorem mergeEntries_section {fields more : Mapping} (h : Entries.get? base key = some (.mapping fields))
    (hr : policy.replaces (path ++ [key]) = false) : mergeEntries policy path base [(key, .mapping more)] =
      Entries.insert base key (.mapping (mergeEntries policy (path ++ [key]) fields more)) := by
  rw [mergeEntries_cons, h]
  show Entries.insert base key (mergeAt policy (path ++ [key]) (.mapping fields) (.mapping more)) = _
  rw [mergeAt_merged hr]

theorem mergeEntries_leaf (h : v.isMapping = false) : mergeEntries policy path base [(key, v)] = Entries.insert base key v := by
  rw [mergeEntries_cons, mergeOver_of_not_mapping _ h]
  rfl

theorem isMapping_mergeOver (old : Option Value) (h : v.isMapping = true) :
    (mergeOver policy path old v).isMapping = true := by
  cases v with
  | mapping es =>
    cases old with
    | none => rfl
    | some old =>
      cases old with
      | mapping bs =>
        show (mergeAt policy path (.mapping bs) (.mapping es)).isMapping = true
        rw [mergeAt]
        split <;> rfl
      | _ => rfl
  | _ => cases h

/-! ### Layers that are held already -/

/-- Merging what the base holds changes nothing. -/
theorem mergeEntries_of_held (h : ∀ e ∈ layer, ∃ old, Entries.get? base e.1 = some old ∧
    mergeAt policy (path ++ [e.1]) old e.2 = old) : mergeEntries policy path base layer = base := by
  induction layer with
  | nil => rfl
  | cons e rest ih =>
    obtain ⟨key, v⟩ := e
    obtain ⟨old, hold, hmerge⟩ := h (key, v) List.mem_cons_self
    rw [mergeEntries_cons, hold]
    show mergeEntries policy path (Entries.insert base key (mergeAt policy (path ++ [key]) old v)) rest = base
    rw [hmerge, Entries.insert_of_get?_eq_some hold]
    exact ih fun e he => h e (List.mem_cons_of_mem _ he)

theorem resetPairs_self (m : Mapping) : policy.resetPairs m m = m := by
  rw [MergePolicy.resetPairs_eq_filter]
  exact List.filter_eq_self.mpr fun e he => decide_eq_true fun h => h.1 (List.mem_map_of_mem he)

mutual

/-- A tree merged over itself is the tree, also where it is replaced. -/
theorem mergeAt_self : ∀ {v : Value} {path : List String}, v.WellKeyed → mergeAt policy path v v = v
  | .mapping es, path, hw => by
    have hself := mergeAt_self_of_mem hw.2
    have hget : ∀ e ∈ es, Entries.get? es e.1 = some e.2 := fun e he => Entries.get?_of_mem hw.1 he
    cases hr : policy.replaces path with
    | true => rw [mergeAt_replaced hr, resetPairs_self, Entries.insertAll_of_held hget]
    | false =>
      rw [mergeAt_merged hr, mergeEntries_of_held fun e he => ⟨e.2, hget e he, hself e he _⟩]
  | .null, _, _ | .bool _, _, _ | .number _, _, _ | .string _, _, _ | .list _, _, _ | .regex _, _, _
  | .predicate _, _, _ => rfl
termination_by structural v => v

theorem mergeAt_self_of_mem : ∀ {es : List (String × Value)}, EntriesWellKeyed es →
    ∀ e ∈ es, ∀ path, mergeAt policy path e.2 e.2 = e.2
  | [], _, e, he, _ => nomatch he
  | (key, v) :: rest, hw, e, he, path => by
    rcases List.mem_cons.mp he with rfl | he
    · exact mergeAt_self hw.1
    · exact mergeAt_self_of_mem hw.2 e he path
termination_by structural es => es

end

/-! ### Merged trees without a key twice -/

theorem WellKeyed.resetPairs (h : (Value.mapping base).WellKeyed) (layer : Mapping) :
    (Value.mapping (policy.resetPairs base layer)).WellKeyed := by
  rw [MergePolicy.resetPairs_eq_filter]
  exact h.filter _

theorem WellKeyed.insertAll (hb : (Value.mapping base).WellKeyed) (hl : EntriesWellKeyed layer) :
    (Value.mapping (Entries.insertAll base layer)).WellKeyed := by
  induction layer generalizing base with
  | nil => exact hb
  | cons e rest ih => exact ih (hb.insert e.1 hl.1) hl.2

mutual

theorem wellKeyed_mergeAt : ∀ {layer base : Value} {path : List String}, base.WellKeyed → layer.WellKeyed →
    (mergeAt policy path base layer).WellKeyed
  | .mapping es, base, path, hb, hl => by
    cases hbase : base.isMapping with
    | false => rwa [mergeAt_over_not_mapping hbase]
    | true =>
      cases base with
      | mapping bs =>
        cases hr : policy.replaces path with
        | true =>
          rw [mergeAt_replaced hr]
          exact (hb.resetPairs es).insertAll hl.2
        | false =>
          rw [mergeAt_merged hr]
          exact wellKeyed_mergeEntries hb hl.2
      | _ => cases hbase
  | .null, _, _, _, _ | .bool _, _, _, _, _ | .number _, _, _, _, _ | .string _, _, _, _, _ | .regex _, _, _, _, _
  | .predicate _, _, _, _, _ => trivial
  | .list _, _, _, _, hl => hl
termination_by structural layer => layer

theorem wellKeyed_mergeEntries : ∀ {layer : List (String × Value)} {base : Mapping} {path : List String},
    (Value.mapping base).WellKeyed → EntriesWellKeyed layer → (Value.mapping (mergeEntries policy path base layer)).WellKeyed
  | [], _, _, hb, _ => hb
  | (key, v) :: rest, base, path, hb, hl => by
    rw [mergeEntries_cons]
    refine wellKeyed_mergeEntries (hb.insert key ?_) hl.2
    cases hold : Entries.get? base key with
    | none => exact hl.1
    | some old => exact wellKeyed_mergeAt (hb.get? hold) hl.1
termination_by structural layer => layer

end

end Value
end AssetPlan
