import AssetPlan.Entries

/-! # Entries: what a table holds after it is written

Look-ups in a table after entries were written to it or picked from it, and the place of a new key. A
look-up sees the first entry of its key only, so what is written all at once must have no key twice. -/

namespace AssetPlan.Entries
variable {κ α : Type} [DecidableEq κ] {m more : Entries κ α} {key : κ} {v : α}

theorem wellKeyed_cons {k : κ} {rest : Entries κ α} :
    WellKeyed ((k, v) :: rest) ↔ get? rest k = none ∧ WellKeyed rest := by
  rw [get?_eq_none_iff]
  exact List.nodup_cons

theorem mem_of_get?_eq_some (h : get? m key = some v) : (key, v) ∈ m := by
  induction m with
  | nil => cases h
  | cons e rest ih =>
    obtain ⟨k, v'⟩ := e
    rw [get?_cons] at h
    split at h
    · rename_i hk
      cases h
      exact hk ▸ List.mem_cons_self
    · exact List.mem_cons_of_mem _ (ih h)

theorem get?_insert_self (m : Entries κ α) (key : κ) (v : α) : get? (insert m key v) key = some v :=
  (get?_insert m key v key).trans (if_pos rfl)

theorem get?_insert_of_ne {key' : κ} (hne : key ≠ key') (m : Entries κ α) (v : α) :
    get? (insert m key v) key' = get? m key' := (get?_insert m key v key').trans (if_neg hne)

theorem get?_append (m more : Entries κ α) (key : κ) :
    get? (m ++ more) key = (get? m key).or (get? more key) := by
  induction m with
  | nil => rfl
  | cons e rest ih =>
    obtain ⟨k, v⟩ := e
    rw [List.cons_append, get?_cons, get?_cons, ih]
    split <;> rfl

/-- A new key goes to the end. -/
theorem insert_of_get?_eq_none (h : get? m key = none) (value : α) : insert m key value = m ++ [(key, value)] := by
  induction m with
  | nil => rfl
  | cons e rest ih =>
    obtain ⟨k, v'⟩ := e
    rw [get?_cons] at h
    split at h
    · cases h
    · rename_i hk
      rw [insert, if_neg hk, ih h]
      rfl

/-- Writing what stands there changes nothing. -/
theorem insert_of_get?_eq_some (h : get? m key = some v) : insert m key v = m := by
  induction m with
  | nil => cases h
  | cons e rest ih =>
    obtain ⟨k, v'⟩ := e
    rw [get?_cons] at h
    rw [insert]
    split at h
    · rename_i hk
      cases h
      rw [if_pos hk]
    · rename_i hk
      rw [if_neg hk, ih h]

theorem insert_insert (m : Entries κ α) (key : κ) (v w : α) : insert (insert m key v) key w = insert m key w := by
  induction m with
  | nil => exact if_pos rfl
  | cons e rest ih =>
    obtain ⟨k, v'⟩ := e
    rw [insert, insert]
    split
    · rename_i hk
      rw [insert, if_pos hk]
    · rename_i hk
      rw [insert, if_neg hk, ih]

theorem erase_insert (m : Entries κ α) (key : κ) (v : α) : erase (insert m key v) key = erase m key := by
  unfold erase
  induction m with
  | nil => simp [insert]
  | cons e rest ih =>
    obtain ⟨k, v'⟩ := e
    rw [insert]
    split
    · rename_i hk
      simp [hk]
    · rw [List.filter_cons, List.filter_cons, ih]

/-- A key that is there has its place, so it may as well be written after another one. -/
theorem insert_comm {key' : κ} (h : get? m key = some v) (hne : key ≠ key') (w w' : α) :
    insert (insert m key w) key' w' = insert (insert m key' w') key w := by
  induction m with
  | nil => cases h
  | cons e rest ih =>
    obtain ⟨k, v'⟩ := e
    rw [get?_cons] at h
    by_cases hk : k = key
    · subst hk
      rw [insert, if_pos rfl, insert, if_neg hne, insert, if_neg hne, insert, if_pos rfl]
    · rw [if_neg hk] at h
      rw [insert, if_neg hk, insert, insert]
      split
      · rw [insert, if_neg hk]
      · rw [insert, if_neg hk, ih h]

/-- Every entry of a table is found under its key if no key occurs twice. -/
theorem get?_of_mem (hm : WellKeyed m) (h : (key, v) ∈ m) : get? m key = some v := by
  induction m with
  | nil => cases h
  | cons e rest ih =>
    obtain ⟨k, v'⟩ := e
    obtain ⟨hk, hrest⟩ := wellKeyed_cons.mp hm
    rw [get?_cons]
    rcases List.mem_cons.mp h with h | h
    · cases h
      exact if_pos rfl
    · have hfound := ih hrest h
      rw [if_neg, hfound]
      rintro rfl
      rw [hk] at hfound
      cases hfound

theorem insertAll_of_held (h : ∀ e ∈ more, get? m e.1 = some e.2) : insertAll m more = m := by
  induction more with
  | nil => rfl
  | cons e rest ih =>
    show insertAll (insert m e.1 e.2) rest = m
    rw [insert_of_get?_eq_some (h e List.mem_cons_self)]
    exact ih fun e' he' => h e' (List.mem_cons_of_mem e he')

/-- Written entries are found first, then those from before. -/
theorem get?_insertAll (hm : WellKeyed more) (m : Entries κ α) (key : κ) :
    get? (insertAll m more) key = (get? more key).or (get? m key) := by
  induction more generalizing m with
  | nil => rfl
  | cons e rest ih =>
    obtain ⟨k, v'⟩ := e
    obtain ⟨hk, hrest⟩ := wellKeyed_cons.mp hm
    show get? (insertAll (insert m k v') rest) key = _
    rw [ih hrest, get?_insert, get?_cons]
    split
    · rename_i h
      rw [← h, hk]
      rfl
    · rfl

/-- Picking entries keeps or drops the value of a key, which has no second one to stand in for it. -/
theorem get?_filter (hm : WellKeyed m) (p : κ × α → Bool) (key : κ) :
    get? (m.filter p) key = (get? m key).filter fun v => p (key, v) := by
  induction m with
  | nil => rfl
  | cons e rest ih =>
    obtain ⟨k, v⟩ := e
    obtain ⟨hk, hrest⟩ := wellKeyed_cons.mp hm
    rw [List.filter_cons, get?_cons]
    by_cases h : k = key
    · subst h
      rw [if_pos rfl, Option.filter_some]
      split
      · rw [get?_cons, if_pos rfl]
      · rw [ih hrest, hk]
        rfl
    · rw [if_neg h, ← ih hrest]
      split
      · rw [get?_cons, if_neg h]
      · rfl

/-- Picking keys keeps or drops the value of a key, also where a key stands twice. -/
theorem get?_filter_keys (p : κ → Bool) (m : Entries κ α) (key : κ) :
    get? (m.filter fun e => p e.1) key = if p key then get? m key else none := by
  induction m with
  | nil => exact (ite_self none).symm
  | cons e rest ih =>
    obtain ⟨k, v⟩ := e
    rw [List.filter_cons, get?_cons]
    by_cases hk : k = key
    · subst hk
      cases hp : p k with
      | true => simp [get?_cons]
      | false => simpa [hp] using ih
    · rw [if_neg hk, ← ih]
      split
      · exact if_neg hk
      · rfl

/-- A written key keeps its place or goes to the end. -/
theorem keys_prefix_insert (m : Entries κ α) (key : κ) (v : α) : keys m <+: keys (insert m key v) := by
  rw [keys_insert]
  split
  · exact List.prefix_rfl
  · exact List.prefix_append _ _

/-- A written key keeps its place or comes before the other new ones. -/
theorem keys_insert_append {rest : List κ} (hkey : key ∉ rest) (m : Entries κ α) (v : α) :
    keys (insert m key v) ++ rest.filter (· ∉ keys (insert m key v)) = keys m ++ (key :: rest).filter (· ∉ keys m) := by
  rw [keys_insert]
  by_cases hmem : key ∈ keys m
  · simp [hmem]
  · have hrest : rest.filter (· ∉ keys m ++ [key]) = rest.filter (· ∉ keys m) :=
      List.filter_congr fun k hk => by simp [show k ≠ key from fun h => hkey (h ▸ hk)]
    rw [if_neg hmem, hrest]
    simp [hmem]

theorem keys_insertAll (hm : WellKeyed more) (m : Entries κ α) :
    keys (insertAll m more) = keys m ++ (keys more).filter (· ∉ keys m) := by
  induction more generalizing m with
  | nil => exact (List.append_nil _).symm
  | cons e rest ih =>
    obtain ⟨k, v⟩ := e
    obtain ⟨hk, hrest⟩ := wellKeyed_cons.mp hm
    exact (ih hrest (insert m k v)).trans (keys_insert_append (get?_eq_none_iff.mp hk) m v)

/-- Of the values of all keys, side by side, those of one key. -/
theorem filter_flatMap_key {β : Type} (hm : WellKeyed m) (f : α → List β) :
    (m.flatMap fun e => (f e.2).map (e.1, ·)).filter (fun b => b.1 = key) =
      (((get? m key).map f).getD []).map (key, ·) := by
  induction m with
  | nil => rfl
  | cons e rest ih =>
    obtain ⟨k, v⟩ := e
    obtain ⟨hk, hrest⟩ := wellKeyed_cons.mp hm
    rw [List.flatMap_cons, List.filter_append, ih hrest, get?_cons]
    by_cases h : k = key
    · subst h
      rw [hk, if_pos rfl, List.filter_eq_self.mpr fun b hb => ?_]
      · exact List.append_nil _
      · obtain ⟨x, -, rfl⟩ := List.mem_map.mp hb
        exact decide_eq_true rfl
    · rw [if_neg h, List.filter_eq_nil_iff.mpr fun b hb => ?_]
      · rfl
      · obtain ⟨x, -, rfl⟩ := List.mem_map.mp hb
        exact fun hk' => h (of_decide_eq_true hk')

/-! ### Tables of alike values -/

/-- No key occurs twice, and every value is as the predicate says. -/
structure KeyedWith (P : α → Prop) (m : Entries κ α) : Prop where
  wellKeyed : WellKeyed m
  values : ∀ e ∈ m, P e.2

theorem mem_insert {e : κ × α} (h : e ∈ insert m key v) : e ∈ m ∨ e = (key, v) := by
  induction m with
  | nil => exact .inr (List.mem_singleton.mp h)
  | cons first rest ih =>
    obtain ⟨k, w⟩ := first
    unfold insert at h
    split at h
    · rename_i hk
      subst hk
      rcases List.mem_cons.mp h with rfl | h
      · exact .inr rfl
      · exact .inl (List.mem_cons_of_mem _ h)
    · rcases List.mem_cons.mp h with rfl | h
      · exact .inl List.mem_cons_self
      · exact (ih h).imp_left (List.mem_cons_of_mem _)

section KeyedWith
variable {P : α → Prop}

omit [DecidableEq κ] in
theorem keyedWith_nil : KeyedWith P ([] : Entries κ α) := ⟨List.nodup_nil, nofun⟩

theorem KeyedWith.get? (h : KeyedWith P m) (hv : get? m key = some v) : P v := h.values _ (mem_of_get?_eq_some hv)

theorem KeyedWith.insert (h : KeyedWith P m) (key : κ) (hv : P v) : KeyedWith P (insert m key v) := by
  refine ⟨h.wellKeyed.insert key v, fun e he => ?_⟩
  rcases mem_insert he with he | rfl
  · exact h.values e he
  · exact hv

theorem KeyedWith.erase (h : KeyedWith P m) (key : κ) : KeyedWith P (erase m key) :=
  ⟨h.wellKeyed.erase key, fun e he => h.values e (List.mem_filter.mp he).1⟩

omit [DecidableEq κ] in
theorem KeyedWith.mapValues {β : Type} {Q : β → Prop} {f : α → β} (h : KeyedWith P m) (hf : ∀ a, P a → Q (f a)) :
    KeyedWith Q (Entries.mapValues f m) := by
  refine ⟨?_, fun e he => ?_⟩
  · have hkeys : keys (Entries.mapValues f m) = keys m := List.map_map
    exact (congrArg List.Nodup hkeys).mpr h.wellKeyed
  · obtain ⟨e', he', rfl⟩ := List.mem_map.mp he
    exact hf _ (h.values e' he')

end KeyedWith

end AssetPlan.Entries
