import AssetPlan.Proofs.Value.Section

/-! # What is kept while a tree is filled

Filling a tree makes sections where there are none and writes settings where there are none or null. A value
that was there is kept, and a mapping stays one: it may get more entries, which come behind its own. `KeptOutside`
says so of every path but those at which something is written whatever stood there. -/

namespace AssetPlan
variable {v v' v'' : Value} {m m' m'' es fs : Mapping} {key : String} {q target : List String}
  {targets targets' : List (List String)}

/-- What stands later in the place of a value: the value itself, or in place of a mapping one that begins with its
    keys. -/
def Value.Stays (v v' : Value) : Prop :=
  v' = v ∨ ∃ es fs, v = .mapping es ∧ v' = .mapping fs ∧ Entries.keys es <+: Entries.keys fs

namespace Value.Stays

theorem refl (v : Value) : v.Stays v := .inl rfl

theorem of_keys (h : Entries.keys es <+: Entries.keys fs) : (Value.mapping es).Stays (.mapping fs) :=
  .inr ⟨es, fs, rfl, rfl, h⟩

theorem exists_mapping (h : (Value.mapping es).Stays v') :
    ∃ fs, v' = .mapping fs ∧ Entries.keys es <+: Entries.keys fs := by
  rcases h with rfl | ⟨_, fs, hes, rfl, hkeys⟩
  · exact ⟨es, rfl, List.prefix_rfl⟩
  · cases hes
    exact ⟨fs, rfl, hkeys⟩

theorem trans (h : v.Stays v') (h' : v'.Stays v'') : v.Stays v'' := by
  rcases h with rfl | ⟨es, fs, rfl, rfl, hkeys⟩
  · exact h'
  · obtain ⟨gs, rfl, hkeys'⟩ := h'.exists_mapping
    exact of_keys (hkeys.trans hkeys')

theorem isNull (h : v.Stays v') (hv : v.isNull = false) : v'.isNull = false := by
  rcases h with rfl | ⟨_, _, -, rfl, -⟩
  · exact hv
  · rfl

theorem isMapping (h : v.Stays v') : v'.isMapping = v.isMapping := by
  rcases h with rfl | ⟨_, _, rfl, rfl, -⟩ <;> rfl

theorem eq_of_leaf (h : v.Stays v') (hv : v.isMapping = false) : v' = v := by
  rcases h with h | ⟨_, _, rfl, -, -⟩
  · exact h
  · cases hv

end Value.Stays

namespace Mapping

/-- What is set in a tree stays, but for what is at a target or below one. -/
def KeptOutside (targets : List (List String)) (m m' : Mapping) : Prop :=
  ∀ q v, (∀ target ∈ targets, ¬ target <+: q) → m.find? q = some v → v.isNull = false →
    ∃ v', m'.find? q = some v' ∧ v.Stays v'

namespace KeptOutside

theorem refl (targets : List (List String)) (m : Mapping) : KeptOutside targets m m :=
  fun _ v _ hv _ => ⟨v, hv, .refl v⟩

theorem trans (h : KeptOutside targets m m') (h' : KeptOutside targets' m' m'') :
    KeptOutside (targets ++ targets') m m'' := by
  intro q v hq hv hnull
  obtain ⟨v', hv', hstays⟩ := h q v (fun t ht => hq t (List.mem_append_left _ ht)) hv hnull
  obtain ⟨v'', hv'', hstays'⟩ := h' q v' (fun t ht => hq t (List.mem_append_right _ ht)) hv' (hstays.isNull hnull)
  exact ⟨v'', hv'', hstays.trans hstays'⟩

theorem find?_leaf (h : KeptOutside targets m m') (hq : ∀ target ∈ targets, ¬ target <+: q) (hv : m.find? q = some v)
    (hnull : v.isNull = false) (hleaf : v.isMapping = false) : m'.find? q = some v := by
  obtain ⟨v', hv', hstays⟩ := h q v hq hv hnull
  rw [hv', hstays.eq_of_leaf hleaf]

theorem find?_section {fields : Mapping} (h : KeptOutside targets m m') (hq : ∀ target ∈ targets, ¬ target <+: q)
    (hv : m.find? q = some (.mapping fields)) : ∃ fields', m'.find? q = some (.mapping fields') := by
  obtain ⟨v', hv', hstays⟩ := h q _ hq hv rfl
  obtain ⟨fields', rfl, -⟩ := hstays.exists_mapping
  exact ⟨fields', hv'⟩

theorem insert (m : Mapping) (key : String) (v : Value) : KeptOutside [[key]] m (Entries.insert m key v) := by
  intro q u hq hu _
  have hkey := hq [key] (List.mem_singleton.mpr rfl)
  match q, hu with
  | [], hu =>
    cases hu
    exact ⟨_, rfl, .of_keys (Entries.keys_prefix_insert m key v)⟩
  | first :: q, hu =>
    have hback : ¬ first :: q <+: [key] := fun h => hkey (h.eq_of_length_le (Nat.succ_le_succ (Nat.zero_le _)) ▸ List.prefix_rfl)
    exact ⟨u, (find?_insert_of_apart ⟨hkey, hback⟩ m v).trans hu, .refl u⟩

theorem setDefault (m : Mapping) (key : String) (v : Value) : KeptOutside [] m (m.setDefault key v) := by
  unfold Mapping.setDefault
  split
  · exact refl [] m
  · rename_i hunset
    intro q u hq hu hnull
    by_cases hkey : [key] <+: q
    · -- There was no value but null under the key, so nothing was set there or below.
      obtain ⟨rest, rfl⟩ := hkey
      change m.find? (key :: rest) = some u at hu
      rw [find?_cons_eq] at hu
      obtain ⟨old, hold, hbelow⟩ := Option.bind_eq_some_iff.mp hu
      have holdNull : old.isNull = true :=
        eq_true_of_ne_false fun hset => hunset (hasValue_iff.mpr ⟨old, hold, hset⟩)
      cases old with
      | null =>
        cases rest with
        | nil =>
          cases hbelow
          cases hnull
        | cons below rest => cases hbelow
      | _ => cases holdNull
    · exact KeptOutside.insert m key v q u (by simpa using hkey) hu hnull

/-- A section that is written with fields that keep its own. -/
theorem insert_fields {fields : Mapping} (hsection : ∀ v, Entries.get? m key = some v → v.isNull = true ∨ v.isMapping = true)
    (h : KeptOutside targets (m.child key) fields) :
    KeptOutside (targets.map (key :: ·)) m (Entries.insert m key (.mapping fields)) := by
  intro q v hq hv hnull
  cases q with
  | nil =>
    cases hv
    exact ⟨_, rfl, .of_keys (Entries.keys_prefix_insert m key _)⟩
  | cons first q =>
    by_cases hfirst : key = first
    · subst hfirst
      cases q with
      | nil =>
        rw [find?_singleton] at hv
        rw [find?_insert]
        -- The section itself: it was set, so it was a mapping, and the new fields keep its keys.
        have hroot : ∀ target ∈ targets, ¬ target <+: [] := fun t ht hp =>
          hq (key :: t) (List.mem_map_of_mem ht) (List.cons_prefix_cons.mpr ⟨rfl, hp⟩)
        obtain ⟨v', hv', hstays⟩ := h [] (.mapping (m.child key)) hroot rfl rfl
        cases hv'
        refine ⟨_, rfl, ?_⟩
        cases v with
        | mapping es => rwa [child_of_get? hv] at hstays
        | null => cases hnull
        | _ => rcases hsection _ hv with h | h <;> cases h
      | cons below q =>
        rw [← find?_child m key (List.cons_ne_nil below q)] at hv
        rw [find?_insert]
        refine h _ v (fun t ht hp => ?_) hv hnull
        exact hq (key :: t) (List.mem_map_of_mem ht) (List.cons_prefix_cons.mpr ⟨rfl, hp⟩)
    · exact ⟨v, (find?_congr (Entries.get?_insert_of_ne hfirst _ _) q).trans hv, .refl v⟩

end KeptOutside
end Mapping
end AssetPlan
