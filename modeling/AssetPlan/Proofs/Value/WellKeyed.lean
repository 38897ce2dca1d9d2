import AssetPlan.Proofs.Entries
import AssetPlan.Value

/-! # Trees without a key twice

Everything below a tree in which no mapping has a key twice is such a tree, and writing such a value into
such a mapping gives one again. -/

namespace AssetPlan.Value

mutual

/-- Whether no mapping in the tree has a key twice. -/
def decWellKeyed : (v : Value) → Decidable v.WellKeyed
  | .list items => decAllWellKeyed items
  | .mapping entries =>
    @instDecidableAnd _ _ (inferInstanceAs (Decidable (Entries.keys entries).Nodup)) (decEntriesWellKeyed entries)
  | .null | .bool _ | .number _ | .string _ | .regex _ | .predicate _ => isTrue trivial
termination_by structural v => v

/-- Whether no mapping in the items has a key twice. -/
def decAllWellKeyed : (vs : List Value) → Decidable (AllWellKeyed vs)
  | [] => isTrue trivial
  | v :: rest => @instDecidableAnd _ _ (decWellKeyed v) (decAllWellKeyed rest)
termination_by structural vs => vs

/-- Whether no mapping below the entries has a key twice. -/
def decEntriesWellKeyed : (es : List (String × Value)) → Decidable (EntriesWellKeyed es)
  | [] => isTrue trivial
  | (_, v) :: rest => @instDecidableAnd _ _ (decWellKeyed v) (decEntriesWellKeyed rest)
termination_by structural es => es

end

instance : DecidablePred WellKeyed := decWellKeyed

variable {m : Mapping} {key : String} {v : Value}

theorem wellKeyed_of_mem {es : List (String × Value)} (h : EntriesWellKeyed es) (hm : (key, v) ∈ es) : v.WellKeyed := by
  induction es with
  | nil => cases hm
  | cons e rest ih =>
    obtain ⟨k, v'⟩ := e
    obtain ⟨hv, hrest⟩ := h
    rcases List.mem_cons.mp hm with hm | hm
    · cases hm
      exact hv
    · exact ih hrest hm

theorem wellKeyed_mapping_iff : (Value.mapping m).WellKeyed ↔ Entries.KeyedWith WellKeyed m := by
  have entries : ∀ {es : List (String × Value)}, EntriesWellKeyed es ↔ ∀ e ∈ es, e.2.WellKeyed := by
    intro es
    induction es with
    | nil => exact ⟨fun _ => nofun, fun _ => trivial⟩
    | cons e rest ih =>
      rw [List.forall_mem_cons, ← ih]
      rfl
  exact ⟨fun h => ⟨h.1, entries.mp h.2⟩, fun h => ⟨h.wellKeyed, entries.mpr h.values⟩⟩

theorem wellKeyed_list_iff {items : List Value} : (Value.list items).WellKeyed ↔ ∀ v ∈ items, v.WellKeyed := by
  show AllWellKeyed items ↔ _
  induction items with
  | nil => exact ⟨fun _ => nofun, fun _ => trivial⟩
  | cons v rest ih =>
    rw [List.forall_mem_cons, ← ih]
    rfl

theorem WellKeyed.get? (h : (Value.mapping m).WellKeyed) (hv : Entries.get? m key = some v) : v.WellKeyed :=
  wellKeyed_of_mem h.2 (Entries.mem_of_get?_eq_some hv)

theorem WellKeyed.find? {q : List String} {u : Value} (h : u.WellKeyed) (hv : u.find? q = some v) : v.WellKeyed := by
  induction q generalizing u with
  | nil =>
    cases hv
    exact h
  | cons key q ih =>
    rw [find?_cons] at hv
    obtain ⟨w, hw, hbelow⟩ := Option.bind_eq_some_iff.mp hv
    cases u with
    | mapping es => exact ih (h.get? hw) hbelow
    | _ => cases hw

theorem WellKeyed.insert (h : (Value.mapping m).WellKeyed) (key : String) (hv : v.WellKeyed) :
    (Value.mapping (Entries.insert m key v)).WellKeyed := by
  refine ⟨Entries.WellKeyed.insert h.1 key v, ?_⟩
  have entries : ∀ {es : List (String × Value)}, EntriesWellKeyed es → EntriesWellKeyed (Entries.insert es key v) := by
    intro es hes
    induction es with
    | nil => exact ⟨hv, trivial⟩
    | cons e rest ih =>
      obtain ⟨k, v'⟩ := e
      unfold Entries.insert
      split
      · exact ⟨hv, hes.2⟩
      · exact ⟨hes.1, ih hes.2⟩
  exact entries h.2

theorem WellKeyed.setDefault (h : (Value.mapping m).WellKeyed) (key : String) (hv : v.WellKeyed) :
    (Value.mapping (m.setDefault key v)).WellKeyed := by
  unfold Mapping.setDefault
  split
  · exact h
  · exact h.insert key hv

theorem wellKeyed_nil : (Value.mapping []).WellKeyed := ⟨List.nodup_nil, trivial⟩

theorem wellKeyed_ofStrings (texts : List String) : (ofStrings texts).WellKeyed := by
  have items : AllWellKeyed (texts.map .string) := by
    induction texts with
    | nil => exact trivial
    | cons text rest ih => exact ⟨trivial, ih⟩
  exact items

theorem WellKeyed.child (h : (Value.mapping m).WellKeyed) (key : String) : (Value.mapping (m.child key)).WellKeyed := by
  unfold Mapping.child
  cases hv : Entries.get? m key with
  | none => exact wellKeyed_nil
  | some v =>
    cases v with
    | mapping es => exact h.get? hv
    | _ => exact wellKeyed_nil

/-- Picking entries of a mapping keeps it well keyed. -/
theorem WellKeyed.filter (h : (Value.mapping m).WellKeyed) (p : String × Value → Bool) :
    (Value.mapping (m.filter p)).WellKeyed := by
  refine ⟨h.1.sublist (List.filter_sublist.map Prod.fst), ?_⟩
  have entries : ∀ {es : List (String × Value)}, EntriesWellKeyed es → EntriesWellKeyed (es.filter p) := by
    intro es hes
    induction es with
    | nil => exact trivial
    | cons e rest ih =>
      rw [List.filter_cons]
      split
      · exact ⟨hes.1, ih hes.2⟩
      · exact ih hes.2
  exact entries h.2

end AssetPlan.Value
