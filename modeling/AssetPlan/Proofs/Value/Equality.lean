import AssetPlan.Proofs.Value.WellKeyed
import AssetPlan.Value.Equality

/-! # Equality of trees

Equality of values does not look at the order of keys. A tree without a key twice is equal to itself, and two
such mappings are equal if equal values are found in them under every key (`equal_mapping_iff`). -/

namespace AssetPlan

namespace Entries
variable {κ α : Type} [DecidableEq κ] {m m' : Entries κ α}

theorem length_erase_lt {key : κ} (h : has m key = true) : (erase m key).length < m.length := by
  obtain ⟨e, he, hkey⟩ := List.mem_map.mp (has_iff_mem_keys.mp h)
  exact List.length_filter_lt_length_iff_exists.mpr ⟨e, he, by simp [hkey]⟩

theorem length_le_of_has (hw : WellKeyed m) (h : ∀ key, has m key = true → has m' key = true) :
    m.length ≤ m'.length := by
  induction m generalizing m' with
  | nil => exact Nat.zero_le _
  | cons e rest ih =>
    obtain ⟨k, v⟩ := e
    obtain ⟨hk, hrest⟩ := wellKeyed_cons.mp hw
    have hhead : has m' k = true := h k (by simp [has, get?_cons])
    have hkeys : ∀ key, has rest key = true → has (erase m' k) key = true := by
      intro key hkey
      have hne : k ≠ key := by
        rintro rfl
        rw [has, hk] at hkey
        cases hkey
      have hcons := h key (by rwa [has, get?_cons, if_neg hne])
      rwa [has, get?_erase, if_neg hne]
    exact Nat.le_trans (Nat.succ_le_succ (ih hrest hkeys)) (length_erase_lt hhead)

theorem length_eq_of_has (hw : WellKeyed m) (hw' : WellKeyed m') (h : ∀ key, has m key = has m' key) :
    m.length = m'.length :=
  Nat.le_antisymm (length_le_of_has hw fun key hkey => (h key).symm.trans hkey)
    (length_le_of_has hw' fun key hkey => (h key).trans hkey)

theorem has_of_length_eq {key : κ} (hw : WellKeyed m) (hlength : m.length = m'.length)
    (h : ∀ key, has m key = true → has m' key = true) (hkey : has m' key = true) : has m key = true := by
  cases hmissing : has m key with
  | true => rfl
  | false =>
    -- Without that key, the second still has all keys of the first, and is shorter.
    have herase : ∀ key', has m key' = true → has (erase m' key) key' = true := by
      intro key' hkey'
      have hne : key ≠ key' := by
        rintro rfl
        exact Bool.false_ne_true (hmissing.symm.trans hkey')
      have := h key' hkey'
      rwa [has, get?_erase, if_neg hne]
    have := length_le_of_has hw herase
    have := length_erase_lt hkey
    omega

omit [DecidableEq κ] in
theorem WellKeyed.perm (hw : WellKeyed m) (h : m.Perm m') : WellKeyed m' := (h.map Prod.fst).nodup_iff.mp hw

theorem get?_eq_some_iff {key : κ} {v : α} (hw : WellKeyed m) : get? m key = some v ↔ (key, v) ∈ m :=
  ⟨mem_of_get?_eq_some, get?_of_mem hw⟩

theorem get?_perm (hw : WellKeyed m) (h : m.Perm m') (key : κ) : get? m key = get? m' key :=
  Option.ext fun v => by rw [get?_eq_some_iff hw, get?_eq_some_iff (hw.perm h), h.mem_iff]

end Entries

namespace Value
variable {m m' : Mapping}

mutual

theorem equal_refl : ∀ {v : Value}, v.WellKeyed → v.equal v = true
  | .mapping es, hw => by
    have hwithin : entriesWithin es es = true := entriesWithin_of_get? hw.2 fun e he => Entries.get?_of_mem hw.1 he
    simp [equal, hwithin]
  | .list items, hw => allEqual_refl hw
  | .number n, _ => n.equal_refl
  | .null, _ => rfl
  | .bool _, _ | .string _, _ | .regex _, _ | .predicate _, _ => by simp [equal]
termination_by structural v => v

theorem allEqual_refl : ∀ {vs : List Value}, AllWellKeyed vs → allEqual vs vs = true
  | [], _ => rfl
  | v :: vs, hw => by
    rw [allEqual, equal_refl hw.1, allEqual_refl hw.2]
    rfl
termination_by structural vs => vs

theorem entriesWithin_of_get? : ∀ {es es' : List (String × Value)}, EntriesWellKeyed es →
    (∀ e ∈ es, Entries.get? es' e.1 = some e.2) → entriesWithin es es' = true
  | [], _, _, _ => rfl
  | (key, v) :: rest, es', hw, h => by
    obtain ⟨hfirst, hrest⟩ := List.forall_mem_cons.mp h
    have hget : Entries.get? es' key = some v := hfirst
    rw [entriesWithin, hget, entriesWithin_of_get? hw.2 hrest]
    simp [equal_refl hw.1]
termination_by structural es => es

end

theorem entriesWithin_iff {es : List (String × Value)} : entriesWithin es m = true ↔
    ∀ e ∈ es, ∃ v, Entries.get? m e.1 = some v ∧ e.2.equal v = true := by
  induction es with
  | nil => exact ⟨fun _ => nofun, fun _ => rfl⟩
  | cons e rest ih =>
    obtain ⟨key, a⟩ := e
    rw [entriesWithin, Bool.and_eq_true, ih, List.forall_mem_cons]
    refine and_congr_left fun _ => ?_
    cases Entries.get? m key <;> simp

/-- Mappings are equal if they have the same keys and equal values under them. -/
theorem equal_mapping_iff (hw : Entries.WellKeyed m) (hw' : Entries.WellKeyed m') :
    (Value.mapping m).equal (.mapping m') = true ↔
      ∀ key, Option.Rel (fun v w => v.equal w = true) (Entries.get? m key) (Entries.get? m' key) := by
  rw [equal, Bool.and_eq_true, beq_iff_eq, entriesWithin_iff]
  constructor
  · rintro ⟨hlength, h⟩ key
    -- Equal values are found under every key of the first; with as many keys, the second has no others.
    have hkeys : ∀ key, Entries.has m key = true → Entries.has m' key = true := by
      intro key hkey
      obtain ⟨a, ha⟩ := Option.isSome_iff_exists.mp hkey
      obtain ⟨v, hv, -⟩ := h _ (Entries.mem_of_get?_eq_some ha)
      exact Option.isSome_iff_exists.mpr ⟨v, hv⟩
    cases ha : Entries.get? m key with
    | some a =>
      obtain ⟨v, hv, hav⟩ := h _ (Entries.mem_of_get?_eq_some ha)
      rw [hv]
      exact .some hav
    | none =>
      cases hv : Entries.get? m' key with
      | none => exact .none
      | some v =>
        have hkey : Entries.has m key = true :=
          Entries.has_of_length_eq hw hlength hkeys (Option.isSome_iff_exists.mpr ⟨v, hv⟩)
        rw [Entries.has, ha] at hkey
        cases hkey
  · intro h
    have hsome : ∀ {key a}, Entries.get? m key = some a → ∃ v, Entries.get? m' key = some v ∧ a.equal v = true := by
      intro key a ha
      have hkey := h key
      rw [ha] at hkey
      cases hv : Entries.get? m' key <;> rw [hv] at hkey <;> cases hkey
      case some v hav => exact ⟨v, rfl, hav⟩
    have hhas : ∀ key, Entries.has m key = Entries.has m' key := by
      intro key
      have hkey := h key
      unfold Entries.has
      cases ha : Entries.get? m key <;> cases hv : Entries.get? m' key <;> rw [ha, hv] at hkey <;> first | rfl | cases hkey
    exact ⟨Entries.length_eq_of_has hw hw' hhas, fun e he => hsome (Entries.get?_of_mem hw he)⟩

/-- Mappings with the same look-ups are equal. -/
theorem equal_of_get?_eq (hw : (Value.mapping m).WellKeyed) (hw' : (Value.mapping m').WellKeyed)
    (h : ∀ key, Entries.get? m key = Entries.get? m' key) : (Value.mapping m).equal (.mapping m') = true := by
  refine (equal_mapping_iff hw.1 hw'.1).mpr fun key => ?_
  rw [← h]
  cases hv : Entries.get? m key with
  | none => exact .none
  | some v => exact .some (equal_refl (hw.get? hv))

end Value
end AssetPlan
