import AssetPlan.Proofs.Value.Section

/-! # What is set

A null entry counts as one that is missing: what is set in a mapping are its other entries. Two mappings in which
the same is set (`SameSet`) may still differ in nulls and in their order. Edits of sections and readers of settings
look at what is set, so on two such mappings they succeed together, and give mappings of this kind again. -/

namespace AssetPlan
open Mapping
variable {m e : Mapping} {key : String} {path : List String} {v : Value} {standard : Bool}
  {rel : String → Mapping → Mapping → Prop}

namespace Value
variable {α : Type}

/-- What null does not give is not given by a value that is not set. -/
theorem bind_filter_set {g : Value → Option α} (h : g .null = none) (o : Option Value) :
    (o.filter fun v => ! v.isNull).bind g = o.bind g := by
  cases o with
  | none => rfl
  | some v =>
    cases v with
    | null => exact h.symm
    | _ => rfl

theorem getD_filter_set (o : Option Value) : (o.filter fun v => ! v.isNull).getD .null = o.getD .null := by
  cases o with
  | none => rfl
  | some v => cases v <;> rfl

end Value

namespace Mapping

/-- The value under a key, if it is set. -/
def set? (m : Mapping) (key : String) : Option Value := (Entries.get? m key).filter fun v => ! v.isNull

theorem set?_eq_some : m.set? key = some v ↔ Entries.get? m key = some v ∧ v.isNull = false := by
  unfold set?
  rw [Option.filter_eq_some_iff, Bool.not_eq_true']

theorem isSome_set? (m : Mapping) (key : String) : (m.set? key).isSome = m.hasValue key := by
  unfold set? hasValue
  cases Entries.get? m key with
  | none => rfl
  | some v => cases h : v.isNull <;> simp [h]

theorem set?_eq_none (h : m.hasValue key = false) : m.set? key = none := by
  rw [← isSome_set?] at h
  exact Option.isNone_iff_eq_none.mp (by simpa using h)

theorem set?_of_null (h : Entries.get? m key = some .null) : m.set? key = none := by
  unfold set?
  rw [h]
  rfl

theorem set?_insert (m : Mapping) (key : String) (v : Value) (key' : String) :
    set? (Entries.insert m key v) key' = if key = key' then (some v).filter fun v => ! v.isNull else m.set? key' := by
  unfold set?
  rw [Entries.get?_insert]
  split <;> rfl

theorem find?_pair (m : Mapping) (key below : String) : m.find? [key, below] = (m.set? key).bind (·.get? below) := by
  rw [find?_cons_eq]
  unfold set?
  cases Entries.get? m key with
  | none => rfl
  | some v =>
    cases v with
    | mapping fields => exact find?_singleton fields below
    | _ => rfl

theorem child_eq (m : Mapping) (key : String) : m.child key = ((m.set? key).bind Value.mapping?).getD [] := by
  unfold child set?
  rw [Value.bind_filter_set rfl]

/-- The section that a set value is. -/
def sectionOf (key : String) : Value → Except ConfigError Mapping
  | .mapping fields => .ok fields
  | v => .error (.structural [key] (.ofKind .mapping v))

theorem fields?_eq (m : Mapping) (key : String) : m.fields? key = ((m.set? key).map (sectionOf key)).getD (.ok []) := by
  unfold fields? set?
  cases Entries.get? m key with
  | none => rfl
  | some v => cases v <;> rfl

theorem fields?_congr (h : m.set? key = e.set? key) : m.fields? key = e.fields? key := by
  rw [fields?_eq, fields?_eq, h]

/-! ### Readers of what is set -/

theorem toOption_required (m : Mapping) (key : String) : (m.required key).toOption = (m.set? key).bind Value.mapping? := by
  unfold required set?
  cases Entries.get? m key with
  | none => rfl
  | some v => cases v <;> rfl

theorem toOption_text? (m : Mapping) (path : List String) (key : String) :
    (m.text? path key).toOption = (m.set? key).bind Value.string? := by
  unfold text? set?
  cases Entries.get? m key with
  | none => rfl
  | some v => cases v <;> rfl

theorem flag?_eq_of_set? (m : Mapping) (path : List String) (key : String) (standard : Bool) :
    m.flag? path key standard =
      match m.set? key with
      | none => .ok standard
      | some (.bool b) => .ok b
      | some v => .error (.structural (path ++ [key]) (.ofKind .boolean v)) := by
  unfold flag? set?
  cases Entries.get? m key with
  | none => rfl
  | some v => cases v <;> rfl

theorem flag?_congr (h : m.set? key = e.set? key) : m.flag? path key standard = e.flag? path key standard := by
  rw [flag?_eq_of_set?, flag?_eq_of_set?, h]

/-! ### Mappings in which the same is set -/

/-- Under every key the same is set, or related mappings are. -/
def SetAlike (rel : String → Mapping → Mapping → Prop) (m e : Mapping) : Prop :=
  ∀ key, m.set? key = e.set? key ∨
    ∃ f f', m.set? key = some (.mapping f) ∧ e.set? key = some (.mapping f') ∧ rel key f f'

/-- Under every key the same is set. -/
def SameSet (m e : Mapping) : Prop := SetAlike (fun _ _ _ => False) m e

theorem sameSet_iff : SameSet m e ↔ ∀ key, m.set? key = e.set? key :=
  ⟨fun h key => (h key).resolve_right fun ⟨_, _, _, _, hfalse⟩ => hfalse, fun h key => .inl (h key)⟩

namespace SetAlike
variable (h : SetAlike rel m e)
include h

theorem hasValue_eq (key : String) : m.hasValue key = e.hasValue key := by
  rw [← isSome_set?, ← isSome_set?]
  rcases h key with heq | ⟨f, f', hm, he, -⟩
  · rw [heq]
  · rw [hm, he]
    rfl

theorem insert (key : String) (v : Value) : SetAlike rel (Entries.insert m key v) (Entries.insert e key v) := by
  intro key'
  rw [set?_insert, set?_insert]
  split
  · exact .inl rfl
  · exact h key'

theorem insert_mapping {f f' : Mapping} (hf : f = f' ∨ rel key f f') :
    SetAlike rel (Entries.insert m key (.mapping f)) (Entries.insert e key (.mapping f')) := by
  rcases hf with rfl | hf
  · exact h.insert key _
  · intro key'
    rw [set?_insert, set?_insert]
    split
    · rename_i hkey
      exact .inr ⟨f, f', rfl, rfl, hkey ▸ hf⟩
    · exact h key'

theorem setDefault (key : String) (v : Value) : SetAlike rel (m.setDefault key v) (e.setDefault key v) := by
  unfold Mapping.setDefault
  rw [h.hasValue_eq]
  split
  · exact h
  · exact h.insert key v

/-- A section can be changed in both mappings or in neither, and it is the same one, or related ones are. -/
theorem fields? (key : String) : SameSuccess (fun f f' => f = f' ∨ rel key f f') (m.fields? key) (e.fields? key) := by
  rcases h key with heq | ⟨f, f', hm, he, hf⟩
  · rw [fields?_congr heq]
    exact .of_refl (fun _ => .inl rfl) _
  · rw [fields?_eq, fields?_eq, hm, he]
    exact .ok (.inr hf)

theorem editSection {edit edit' : Mapping → Except ConfigError Mapping}
    (hedit : ∀ f f', f = f' ∨ rel key f f' → SameSuccess (fun g g' => g = g' ∨ rel key g g') (edit f) (edit' f')) :
    SameSuccess (SetAlike rel) (m.editSection key edit) (e.editSection key edit') :=
  (h.fields? key).bind fun f f' hf => (hedit f f' hf).bind fun _ _ hg => .ok (h.insert_mapping hg)

theorem required (key : String) : SameSuccess (fun f f' => f = f' ∨ rel key f f') (m.required key) (e.required key) := by
  rcases h key with heq | ⟨f, f', hm, he, hf⟩
  · refine (SameSuccess.of_toOption ?_).imp fun _ _ _ _ => .inl
    rw [toOption_required, toOption_required, heq]
  · rw [required_of_get? (set?_eq_some.mp hm).1, required_of_get? (set?_eq_some.mp he).1]
    exact .ok (.inr hf)

theorem text? (path : List String) (key : String) : SameSuccess Eq (m.text? path key) (e.text? path key) := by
  refine .of_toOption ?_
  rw [toOption_text?, toOption_text?]
  rcases h key with heq | ⟨f, f', hm, he, -⟩
  · rw [heq]
  · rw [hm, he]
    rfl

end SetAlike
end Mapping
end AssetPlan
