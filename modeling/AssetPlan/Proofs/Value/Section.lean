import AssetPlan.Proofs.Traversal
import AssetPlan.Proofs.Value.Path
import AssetPlan.Value.Section

/-! # Sections that were read or edited

Reading a setting gives what stands under its key. Editing a section reads it, a missing or null one as an
empty mapping, and writes what the edit gives under the same key; nothing else changes. -/

namespace AssetPlan.Mapping
variable {m m' : Mapping} {key : String} {path : List String} {s : String} {b standard : Bool}

/-! ### Settings -/

theorem hasValue_iff : m.hasValue key = true ↔ ∃ v, Entries.get? m key = some v ∧ v.isNull = false := by
  unfold hasValue
  cases Entries.get? m key <;> simp

theorem hasValue_congr (h : Entries.get? m' key = Entries.get? m key) : m'.hasValue key = m.hasValue key := by
  unfold hasValue
  rw [h]

theorem required_eq_ok {fields : Mapping} (h : m.required key = .ok fields) :
    Entries.get? m key = some (.mapping fields) := by
  unfold required at h
  split at h
  · cases h
    assumption
  · cases h
  · cases h

theorem required_of_get? {fields : Mapping} (h : Entries.get? m key = some (.mapping fields)) :
    m.required key = .ok fields := by
  unfold required
  rw [h]

theorem text?_eq_ok (h : m.text? path key = .ok s) : Entries.get? m key = some (.string s) := by
  unfold text? at h
  split at h
  · cases h
    assumption
  · cases h
  · cases h

theorem text?_of_get? (h : Entries.get? m key = some (.string s)) (path : List String) : m.text? path key = .ok s := by
  unfold text?
  rw [h]

theorem flag?_eq_ok (h : m.flag? path key standard = .ok b) :
    b = ((Entries.get? m key).bind Value.bool?).getD standard := by
  unfold flag? at h
  split at h
  · rename_i hv
    cases h
    rw [hv]
    rfl
  · rename_i hv
    cases h
    rw [hv]
    rfl
  · rename_i hv
    cases h
    rw [hv]
    rfl
  · cases h

theorem flag?_of_get? (h : Entries.get? m key = some (.bool b)) (path : List String) (standard : Bool) :
    m.flag? path key standard = .ok b := by
  unfold flag?
  rw [h]

/-! ### Edited sections -/

theorem fields?_eq_ok {fields : Mapping} (h : m.fields? key = .ok fields) : fields = m.child key := by
  unfold fields? at h
  unfold child
  cases hv : Entries.get? m key with
  | none =>
    rw [hv] at h
    cases h
    rfl
  | some v =>
    rw [hv] at h
    cases v with
    | null =>
      cases h
      rfl
    | mapping es =>
      cases h
      rfl
    | _ => cases h

theorem editSection_eq_ok {f : Mapping → Except ConfigError Mapping} (h : m.editSection key f = .ok m') :
    ∃ fields, f (m.child key) = .ok fields ∧ m' = Entries.insert m key (.mapping fields) := by
  obtain ⟨old, hold, h⟩ := bind_eq_ok.mp h
  obtain ⟨fields, hfields, h⟩ := bind_eq_ok.mp h
  cases h
  rw [← fields?_eq_ok hold]
  exact ⟨fields, hfields, rfl⟩

theorem fields?_of_get? {fields : Mapping} (h : Entries.get? m key = some (.mapping fields)) :
    m.fields? key = .ok fields := by
  unfold fields?
  rw [h]

theorem editSection_of_get? {f : Mapping → Except ConfigError Mapping} {fields fields' : Mapping}
    (h : Entries.get? m key = some (.mapping fields)) (hf : f fields = .ok fields') :
    m.editSection key f = .ok (Entries.insert m key (.mapping fields')) := by
  unfold editSection
  rw [fields?_of_get? h]
  show (f fields >>= fun fields => .ok (Entries.insert m key (.mapping fields))) = _
  rw [hf]
  rfl

/-- An edit that changes nothing in its section changes nothing at all. -/
theorem editSection_self {f : Mapping → Except ConfigError Mapping} {fields : Mapping}
    (h : Entries.get? m key = some (.mapping fields)) (hf : f fields = .ok fields) : m.editSection key f = .ok m := by
  rw [editSection_of_get? h hf, Entries.insert_of_get?_eq_some h]

theorem shape_of_editSection {f : Mapping → Except ConfigError Mapping} (h : m.editSection key f = .ok m') {v : Value}
    (hv : Entries.get? m key = some v) : v.isNull = true ∨ v.isMapping = true := by
  obtain ⟨old, hold, -⟩ := bind_eq_ok.mp h
  unfold fields? at hold
  rw [hv] at hold
  cases v with
  | null => exact .inl rfl
  | mapping es => exact .inr rfl
  | _ => cases hold

theorem get?_editSection {f : Mapping → Except ConfigError Mapping} (h : m.editSection key f = .ok m') {key' : String}
    (hne : key ≠ key') : Entries.get? m' key' = Entries.get? m key' := by
  obtain ⟨fields, -, rfl⟩ := editSection_eq_ok h
  rw [Entries.get?_insert, if_neg hne]

theorem child_of_get? {fields : Mapping} (h : Entries.get? m key = some (.mapping fields)) : m.child key = fields := by
  unfold child
  rw [h]
  rfl

theorem get?_child (m : Mapping) (key below : String) : Entries.get? (m.child key) below = m.find? [key, below] := by
  rw [find?_cons_eq]
  unfold child
  cases Entries.get? m key with
  | none => rfl
  | some v =>
    cases v with
    | mapping fields => exact (find?_singleton fields below).symm
    | _ => rfl

/-- Below its first key a chain that goes on is one of the section there. -/
theorem find?_child (m : Mapping) (key : String) {q : List String} (hq : q ≠ []) :
    (m.child key).find? q = m.find? (key :: q) := by
  cases q with
  | nil => exact absurd rfl hq
  | cons below q =>
    rw [find?_cons_eq, get?_child]
    exact (Value.find?_append (.mapping m) [key, below] q).symm

/-- Writing one setting of a section is not seen from elsewhere. -/
theorem find?_insert_setting {setting : String} {v : Value} {q : List String}
    (hq : KeyPath.Apart [key, setting] q) :
    Mapping.find? (Entries.insert m key (.mapping (Entries.insert (m.child key) setting v))) q = m.find? q := by
  by_cases hkey : [key] <+: q
  · obtain ⟨below, rfl⟩ := hkey
    have hbelow : KeyPath.Apart [setting] below := hq.tail
    show Mapping.find? _ (key :: below) = m.find? (key :: below)
    rw [find?_insert, ← find?_child m key fun hnil => hbelow.2 (hnil ▸ List.nil_prefix)]
    exact find?_insert_of_apart hbelow _ v
  · exact find?_insert_of_apart ⟨hkey, fun h => hq.2 (h.trans (List.prefix_append [key] [setting]))⟩ m _

/-- Writing one setting of a section keeps the others. -/
theorem find?_editSection {setting : String} {v : Value}
    (h : m.editSection key (fun fields => .ok (Entries.insert fields setting v)) = .ok m') (below : String) :
    m'.find? [key, below] = if setting = below then some v else m.find? [key, below] := by
  obtain ⟨fields, hfields, rfl⟩ := editSection_eq_ok h
  cases hfields
  rw [find?_insert]
  show Mapping.find? (Entries.insert _ _ _) [below] = _
  rw [find?_singleton, Entries.get?_insert, get?_child]

end AssetPlan.Mapping
