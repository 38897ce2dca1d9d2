/-! # Entries in written order

A mapping of a configuration keeps its entries in the order in which their keys were first written:
that order decides which of two conflicting declarations wins. `Entries` is the list of the entries.
Writing to a present key changes its value and keeps its place; erasing keeps the order of the rest.
`WellKeyed` says that no key occurs twice; every operation here preserves it. -/

namespace AssetPlan

/-- Keys with their values, in the order in which the keys were first written. -/
abbrev Entries (κ α : Type) := List (κ × α)

namespace Entries
variable {κ α β : Type} [DecidableEq κ]

/-- The keys in order. -/
def keys (m : Entries κ α) : List κ := m.map Prod.fst

/-- No key occurs twice. -/
def WellKeyed (m : Entries κ α) : Prop := (keys m).Nodup

/-- The value written under a key. -/
def get? : Entries κ α → κ → Option α
  | [], _ => none
  | (k, v) :: rest, key => if k = key then some v else get? rest key

/-- Whether a key is present. -/
def has (m : Entries κ α) (key : κ) : Bool := (get? m key).isSome

/-- Writes a value: in place under a present key, at the end otherwise. -/
def insert : Entries κ α → κ → α → Entries κ α
  | [], key, value => [(key, value)]
  | (k, v) :: rest, key, value => if k = key then (k, value) :: rest else (k, v) :: insert rest key value

/-- Writes all entries of the second table in their order. -/
def insertAll (m : Entries κ α) (more : Entries κ α) : Entries κ α :=
  more.foldl (fun m e => insert m e.1 e.2) m

/-- Removes a key; the rest keeps its order. -/
def erase (m : Entries κ α) (key : κ) : Entries κ α := m.filter fun e => e.1 ≠ key

/-- Applies a function to every value. -/
def mapValues (f : α → β) (m : Entries κ α) : Entries κ β := m.map fun e => (e.1, f e.2)

@[simp] theorem get?_nil (key : κ) : get? ([] : Entries κ α) key = none := rfl

theorem get?_cons (k : κ) (v : α) (rest : Entries κ α) (key : κ) :
    get? ((k, v) :: rest) key = if k = key then some v else get? rest key := rfl

theorem get?_eq_none_iff {m : Entries κ α} {key : κ} : get? m key = none ↔ key ∉ keys m := by
  induction m with
  | nil => simp [keys]
  | cons e rest ih =>
    obtain ⟨k, v⟩ := e
    by_cases h : k = key
    · simp [get?_cons, keys, h]
    · simp only [get?_cons, h, ↓reduceIte, ih]
      simp [keys, Ne.symm h]

theorem has_iff_mem_keys {m : Entries κ α} {key : κ} : has m key = true ↔ key ∈ keys m := by
  have h := @get?_eq_none_iff _ _ _ m key
  unfold has
  cases hg : get? m key <;> simp_all

theorem get?_insert (m : Entries κ α) (key : κ) (value : α) (key' : κ) :
    get? (insert m key value) key' = if key = key' then some value else get? m key' := by
  induction m with
  | nil => rfl
  | cons e rest ih =>
    obtain ⟨k, v⟩ := e
    unfold insert
    by_cases h : k = key
    · subst h
      by_cases h' : k = key' <;> simp [get?_cons, h']
    · simp only [h, ↓reduceIte, get?_cons, ih]
      by_cases h' : k = key'
      · subst h'
        simp [Ne.symm h]
      · simp [h']

theorem keys_insert (m : Entries κ α) (key : κ) (value : α) :
    keys (insert m key value) = if key ∈ keys m then keys m else keys m ++ [key] := by
  induction m with
  | nil => rfl
  | cons e rest ih =>
    obtain ⟨k, v⟩ := e
    unfold insert
    by_cases h : k = key
    · simp [h, keys]
    · have h' : ¬ key = k := Ne.symm h
      simp only [keys, List.map_cons, List.mem_cons, h, h', ↓reduceIte, false_or] at ih ⊢
      rw [ih]
      by_cases hk : key ∈ List.map Prod.fst rest <;> simp [hk]

theorem WellKeyed.insert {m : Entries κ α} (h : WellKeyed m) (key : κ) (value : α) :
    WellKeyed (insert m key value) := by
  unfold WellKeyed at h ⊢
  rw [keys_insert]
  split
  · exact h
  · rename_i hk
    exact List.nodup_append.mpr ⟨h, by simp, fun a ha b hb hab => by simp_all⟩

theorem get?_erase (m : Entries κ α) (key key' : κ) :
    get? (erase m key) key' = if key = key' then none else get? m key' := by
  induction m with
  | nil => simp [erase]
  | cons e rest ih =>
    obtain ⟨k, v⟩ := e
    unfold erase at ih ⊢
    by_cases h : k = key
    · subst h
      simp only [ne_eq, not_true_eq_false, decide_false, Bool.false_eq_true, not_false_eq_true,
        List.filter_cons_of_neg, ih, get?_cons]
      split <;> simp_all
    · simp only [ne_eq, h, not_false_eq_true, decide_true, List.filter_cons_of_pos, get?_cons, ih]
      by_cases h' : k = key'
      · subst h'
        simp [Ne.symm h]
      · simp [h']

theorem WellKeyed.erase {m : Entries κ α} (h : WellKeyed m) (key : κ) : WellKeyed (erase m key) :=
  List.Nodup.sublist (List.Sublist.map Prod.fst List.filter_sublist) h

end Entries
end AssetPlan
