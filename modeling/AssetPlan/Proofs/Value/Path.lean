import AssetPlan.Proofs.Entries
import AssetPlan.Value

/-! # Look-ups along a chain of keys

A look-up goes from key to key, so it can be cut anywhere, and below its first key it depends on the value
there only. What is written at the end of one chain is not seen from another one that is `Apart` from it. -/

namespace AssetPlan

/-- Neither of two chains of keys goes on where the other one ends. -/
def KeyPath.Apart (p q : List String) : Prop := ¬ p <+: q ∧ ¬ q <+: p

instance (p q : List String) : Decidable (KeyPath.Apart p q) := inferInstanceAs (Decidable (_ ∧ _))

theorem KeyPath.Apart.of_append {front p q : List String} (h : Apart (front ++ p) (front ++ q)) : Apart p q :=
  ⟨fun hp => h.1 ((List.prefix_append_right_inj front).mpr hp), fun hq => h.2 ((List.prefix_append_right_inj front).mpr hq)⟩

theorem KeyPath.Apart.tail {key : String} {p q : List String} (h : Apart (key :: p) (key :: q)) : Apart p q :=
  of_append (show Apart ([key] ++ p) ([key] ++ q) from h)

theorem Value.find?_append (v : Value) (p q : List String) : v.find? (p ++ q) = (v.find? p).bind (Value.find? · q) := by
  induction p generalizing v with
  | nil => rfl
  | cons key p ih =>
    rw [List.cons_append, Value.find?_cons, Value.find?_cons]
    cases v.get? key with
    | none => rfl
    | some u => exact ih u

theorem Value.find?_mapping (m : Mapping) (key : String) (q : List String) :
    (Value.mapping m).find? (key :: q) = (Entries.get? m key).bind (Value.find? · q) := rfl

/-- A chain of keys ends in a mapping only if it begins in one. -/
theorem Value.exists_of_find?_mapping {v : Value} {p : List String} {fields : Mapping}
    (h : v.find? p = some (.mapping fields)) : ∃ es, v = .mapping es := by
  cases v with
  | mapping es => exact ⟨es, rfl⟩
  | _ => cases p <;> cases h

namespace Mapping
variable {m m' : Mapping} {key : String}

theorem find?_cons_eq (m : Mapping) (key : String) (q : List String) :
    m.find? (key :: q) = (Entries.get? m key).bind (Value.find? · q) := rfl

theorem find?_singleton (m : Mapping) (key : String) : m.find? [key] = Entries.get? m key := by
  rw [find?_cons_eq]
  cases Entries.get? m key <;> rfl

/-- What stands under the last key of a chain stands in a section. -/
theorem find?_concat_eq_some {p : List String} {v : Value} :
    m.find? (p ++ [key]) = some v ↔ ∃ fields, m.find? p = some (.mapping fields) ∧ Entries.get? fields key = some v := by
  have hsplit : m.find? (p ++ [key]) = (m.find? p).bind (Value.find? · [key]) := Value.find?_append (.mapping m) p [key]
  rw [hsplit, Option.bind_eq_some_iff]
  constructor
  · rintro ⟨u, hu, hv⟩
    cases u with
    | mapping fields => exact ⟨fields, hu, (find?_singleton fields key).symm.trans hv⟩
    | _ => cases hv
  · rintro ⟨fields, hu, hv⟩
    exact ⟨_, hu, (find?_singleton fields key).trans hv⟩

theorem find?_congr (h : Entries.get? m' key = Entries.get? m key) (q : List String) :
    m'.find? (key :: q) = m.find? (key :: q) := by
  rw [find?_cons_eq, find?_cons_eq, h]

theorem get?_congr (h : m'.find? [key] = m.find? [key]) : Entries.get? m' key = Entries.get? m key := by
  rwa [find?_singleton, find?_singleton] at h

theorem find?_insert (m : Mapping) (key : String) (v : Value) (q : List String) :
    Mapping.find? (Entries.insert m key v) (key :: q) = v.find? q := by
  rw [find?_cons_eq, Entries.get?_insert, if_pos rfl]
  rfl

theorem find?_insert_of_apart {q : List String} (hq : KeyPath.Apart [key] q) (m : Mapping) (v : Value) :
    Mapping.find? (Entries.insert m key v) q = m.find? q := by
  cases q with
  | nil => exact absurd List.nil_prefix hq.2
  | cons first q =>
    have hne : key ≠ first := fun h => hq.1 (List.cons_prefix_cons.mpr ⟨h, List.nil_prefix⟩)
    exact find?_congr (Entries.get?_insert_of_ne hne _ _) q

theorem find?_of_get? {fields : Mapping} (h : Entries.get? m key = some (.mapping fields)) (below : String) :
    m.find? [key, below] = Entries.get? fields below := by
  rw [find?_cons_eq, h]
  exact find?_singleton fields below

end Mapping
end AssetPlan
