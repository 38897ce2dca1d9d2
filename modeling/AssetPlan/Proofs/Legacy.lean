import AssetPlan.Legacy
import AssetPlan.Proofs.Value.Kept
import AssetPlan.Proofs.Value.Unset
import AssetPlan.Proofs.Value.WellKeyed

/-! # Legacy fields after their migration

The advice on a configuration depends on a handful of look-ups, and migrating changes the hooks only. A
configuration whose hooks have `onCompile` is migrated. `Moves` says when a legacy hook is moved: only then does
migrating change anything, and it writes that hook and nothing else. -/

namespace AssetPlan.Legacy
open Mapping
variable {m m' hooks : Mapping} {key : String} {q : List String}

/-- The paths at which legacy fields are looked for. -/
def advicePaths : List (List String) :=
  [["paths", "app"], ["paths", "ignored"], ["files"], ["onCompile"], ["rootPath"], ["buildPath"]] ++
    LegacyDirectory.all.map fun directory => ["paths", directory.key]

/-- The advice depends on nothing but its look-ups. -/
theorem advice_congr (h : ∀ q ∈ advicePaths, m'.find? q = m.find? q) : advice m' = advice m := by
  have hpaths : ∀ key, ["paths", key] ∈ advicePaths →
      Entries.get? (m'.child "paths") key = Entries.get? (m.child "paths") key := by
    intro key hkey
    rw [get?_child, get?_child, h _ hkey]
  have hkeys : ∀ key, [key] ∈ advicePaths → Entries.get? m' key = Entries.get? m key := by
    intro key hkey
    rw [← find?_singleton, ← find?_singleton, h _ hkey]
  have hdirectory : directoryAdvice (m'.child "paths") = directoryAdvice (m.child "paths") := by
    funext directory
    unfold directoryAdvice
    rw [hpaths directory.key (by cases directory <;> decide)]
  have hpathAdvice : pathAdvice m' = pathAdvice m := by
    unfold pathAdvice
    dsimp only
    rw [hdirectory, hasValue_congr (hpaths "app" (by decide)), hasValue_congr (hpaths "ignored" (by decide))]
  have hfileAdvice : fileAdvice m' = fileAdvice m := by
    unfold fileAdvice child
    rw [hkeys "files" (by decide)]
  unfold advice
  rw [hpathAdvice, hfileAdvice, hasValue_congr (hkeys "onCompile" (by decide)),
    hasValue_congr (hkeys "rootPath" (by decide)), hasValue_congr (hkeys "buildPath" (by decide))]

/-- Migrating changes the hooks only. -/
theorem find?_migrate (hq : KeyPath.Apart ["hooks"] q) : (migrate m).find? q = m.find? q := by
  unfold migrate
  split
  · split
    · exact find?_insert_of_apart hq m _
    · rfl
  · rfl

theorem migrate_of_accepts {hook : Value} (haccepts : acceptsHooks m = true)
    (hget : Entries.get? m "onCompile" = some hook) (hnull : hook.isNull = false) :
    migrate m = Entries.insert m "hooks" (.mapping ((m.child "hooks").setDefault "onCompile" hook)) := by
  unfold migrate
  rw [hget]
  dsimp only
  rw [hnull, haccepts]
  rfl

theorem migrate_of_rejects (h : acceptsHooks m = false) : migrate m = m := by
  unfold migrate
  split
  · rw [h, Bool.and_false]
    rfl
  · rfl

/-- Where hooks can be written a hook of that name is set after migrating. -/
theorem find?_migrate_hook (haccepts : acceptsHooks m = true) (hset : m.hasValue "onCompile" = true) :
    ∃ hook, (migrate m).find? ["hooks", "onCompile"] = some hook ∧ hook.isNull = false := by
  obtain ⟨hook, hget, hnull⟩ := hasValue_iff.mp hset
  rw [migrate_of_accepts haccepts hget hnull, find?_insert]
  show ∃ hook', Mapping.find? ((m.child "hooks").setDefault "onCompile" hook) ["onCompile"] = _ ∧ _
  rw [find?_singleton]
  unfold setDefault
  split
  · rename_i hold
    exact hasValue_iff.mp hold
  · exact ⟨hook, Entries.get?_insert_self _ _ _, hnull⟩

/-- What stands for the hooks after migrating stood there before, or it is a section. -/
theorem origin_of_migrate {v : Value} (hv : Entries.get? (migrate m) "hooks" = some v) :
    Entries.get? m "hooks" = some v ∨ v.isMapping = true := by
  unfold migrate at hv
  split at hv
  · split at hv
    · rw [modifyChild, Entries.get?_insert_self] at hv
      cases hv
      exact .inr rfl
    · exact .inl hv
  · exact .inl hv

theorem shape_of_migrate (h : ∀ v, Entries.get? m "hooks" = some v → v.isNull = true ∨ v.isMapping = true) {v : Value}
    (hv : Entries.get? (migrate m) "hooks" = some v) : v.isNull = true ∨ v.isMapping = true := by
  rcases origin_of_migrate hv with hkept | hmapping
  · exact h v hkept
  · exact .inr hmapping

theorem wellKeyed_migrate (hw : (Value.mapping m).WellKeyed) : (Value.mapping (migrate m)).WellKeyed := by
  unfold migrate
  split
  · rename_i hook hget
    split
    · exact hw.insert "hooks" ((hw.child "hooks").setDefault "onCompile" (hw.get? hget))
    · exact hw
  · exact hw

/-- A configuration whose hooks have `onCompile` is left as it is. -/
theorem migrate_self (hhooks : Entries.get? m "hooks" = some (.mapping hooks))
    (hset : m.hasValue "onCompile" = true → hooks.hasValue "onCompile" = true) : migrate m = m := by
  unfold migrate
  split
  · rename_i hook hget
    split
    · rename_i hcond
      have hnull : hook.isNull = false := (Bool.not_eq_true' _).mp (Bool.and_eq_true_iff.mp hcond).1
      rw [modifyChild, child_of_get? hhooks, setDefault, if_pos (hset (hasValue_iff.mpr ⟨hook, hget, hnull⟩)),
        Entries.insert_of_get?_eq_some hhooks]
    · rfl
  · rfl

/-! ### Null fields -/

theorem directoryAdvice_eq (paths : Mapping) (directory : LegacyDirectory) :
    directoryAdvice paths directory =
      match paths.set? directory.key with
      | some (.list _) => [.pathsList directory]
      | some _ => [.pathsDirectory directory]
      | none => [] := by
  unfold directoryAdvice set?
  cases Entries.get? paths directory.key with
  | none => rfl
  | some v => cases v <;> rfl

/-- Legacy paths are reported if they are set. -/
theorem pathAdvice_congr (h : SameSet (m.child "paths") (m'.child "paths")) : pathAdvice m = pathAdvice m' := by
  have hdirectory : directoryAdvice (m.child "paths") = directoryAdvice (m'.child "paths") := by
    funext directory
    rw [directoryAdvice_eq, directoryAdvice_eq, sameSet_iff.mp h]
  unfold pathAdvice
  dsimp only
  rw [hdirectory, h.hasValue_eq, h.hasValue_eq]

theorem acceptsHooks_congr (h : m.set? "hooks" = m'.set? "hooks") : acceptsHooks m = acceptsHooks m' := by
  have hread : ∀ m, acceptsHooks m = ((m.set? "hooks").map Value.isMapping).getD true := by
    intro m
    unfold acceptsHooks set?
    cases Entries.get? m "hooks" with
    | none => rfl
    | some v => cases v <;> rfl
  rw [hread, hread, h]

theorem migrate_eq (m : Mapping) :
    migrate m =
      match m.set? "onCompile" with
      | some hook => if acceptsHooks m then m.modifyChild "hooks" fun hooks => hooks.setDefault "onCompile" hook else m
      | none => m := by
  unfold migrate set?
  cases Entries.get? m "onCompile" with
  | none => rfl
  | some v => cases v <;> rfl

/-- Migrating keeps trees alike in which the same hooks are set. -/
theorem migrate_alike {rel : String → Mapping → Mapping → Prop} (h : SetAlike rel m m')
    (hmoved : m.set? "onCompile" = m'.set? "onCompile") (hhooks : m.set? "hooks" = m'.set? "hooks") :
    SetAlike rel (migrate m) (migrate m') := by
  rw [migrate_eq, migrate_eq, hmoved, acceptsHooks_congr hhooks]
  split
  · split
    · unfold modifyChild
      rw [child_eq, child_eq, hhooks]
      exact h.insert "hooks" _
    · exact h
  · exact h

/-! ### What is moved -/

/-- The legacy hook is moved: it is set, the hooks are missing, null or a section, and none of that name is set
    among them. -/
structure Moves (m : Mapping) (hook : Value) : Prop where
  legacy : m.find? ["onCompile"] = some hook
  set : hook.isNull = false
  hooks : ∀ v, m.find? ["hooks"] = some v → v.isNull = true ∨ v.isMapping = true
  unset : ∀ v, m.find? ["hooks", "onCompile"] = some v → v.isNull = true

theorem acceptsHooks_iff :
    acceptsHooks m = true ↔ ∀ v, m.find? ["hooks"] = some v → v.isNull = true ∨ v.isMapping = true := by
  rw [find?_singleton]
  unfold acceptsHooks
  cases Entries.get? m "hooks" <;> simp

theorem hasHook_eq_false_iff : (m.child "hooks").hasValue "onCompile" = false ↔
    ∀ v, m.find? ["hooks", "onCompile"] = some v → v.isNull = true := by
  unfold hasValue
  rw [get?_child]
  cases m.find? ["hooks", "onCompile"] <;> simp

theorem migrate_of_moves {hook : Value} (h : Moves m hook) :
    migrate m = Entries.insert m "hooks" (.mapping (Entries.insert (m.child "hooks") "onCompile" hook)) := by
  rw [migrate_of_accepts (acceptsHooks_iff.mpr h.hooks) ((find?_singleton m _).symm.trans h.legacy) h.set, setDefault,
    hasHook_eq_false_iff.mpr h.unset]
  rfl

/-- Without a hook to move nothing changes: a hook that is set and malformed hooks are left as they are. -/
theorem migrate_of_not_moves (h : ∀ hook, ¬ Moves m hook) : migrate m = m := by
  cases hset : m.hasValue "onCompile" with
  | false => rw [migrate_eq, set?_eq_none hset]
  | true =>
    obtain ⟨hook, hlegacy, hnull⟩ := hasValue_iff.mp hset
    cases haccepts : acceptsHooks m with
    | false => exact migrate_of_rejects haccepts
    | true =>
      cases hhook : (m.child "hooks").hasValue "onCompile" with
      | false =>
        exact absurd ⟨(find?_singleton m _).trans hlegacy, hnull, acceptsHooks_iff.mp haccepts,
          hasHook_eq_false_iff.mp hhook⟩ (h hook)
      | true =>
        obtain ⟨v, hv, -⟩ := hasValue_iff.mp hhook
        rw [get?_child] at hv
        obtain ⟨hooks, hhooks, -⟩ := find?_concat_eq_some (p := ["hooks"]).mp hv
        rw [find?_singleton] at hhooks
        exact migrate_self hhooks fun _ => child_of_get? hhooks ▸ hhook

theorem find?_migrate_of_moves {hook : Value} (h : Moves m hook) :
    (migrate m).find? ["hooks", "onCompile"] = some hook := by
  rw [migrate_of_moves h, find?_insert]
  exact (find?_singleton _ _).trans (Entries.get?_insert_self _ _ _)

/-- A tree in which a legacy hook was moved has none to move. -/
theorem not_moves_migrate (hook : Value) : ¬ Moves (migrate m) hook := by
  intro hagain
  by_cases h : ∃ moved, Moves m moved
  · obtain ⟨moved, h⟩ := h
    have hnull := hagain.unset moved (find?_migrate_of_moves h)
    rw [h.set] at hnull
    cases hnull
  · have hsame : migrate m = m := migrate_of_not_moves fun moved hmoves => h ⟨moved, hmoves⟩
    exact h ⟨hook, hsame ▸ hagain⟩

/-- Migrating changes nothing but the one hook. -/
theorem find?_migrate_of_apart (hq : KeyPath.Apart ["hooks", "onCompile"] q) : (migrate m).find? q = m.find? q := by
  by_cases h : ∃ hook, Moves m hook
  · obtain ⟨hook, h⟩ := h
    rw [migrate_of_moves h]
    exact find?_insert_setting hq
  · rw [migrate_of_not_moves fun hook hmoves => h ⟨hook, hmoves⟩]

/-- What is set in a tree stays when it is migrated, and keys keep their order. -/
theorem kept_migrate (m : Mapping) : KeptOutside [] m (migrate m) := by
  rw [migrate_eq]
  split
  · rename_i hook _
    split
    · rename_i haccepts
      have hshape := acceptsHooks_iff.mp haccepts
      rw [find?_singleton] at hshape
      exact KeptOutside.insert_fields hshape (KeptOutside.setDefault (m.child "hooks") "onCompile" hook)
    · exact .refl [] m
  · exact .refl [] m

theorem advice_migrate (m : Mapping) : advice (migrate m) = advice m :=
  advice_congr fun q hq => find?_migrate ((by decide : ∀ q ∈ advicePaths, KeyPath.Apart ["hooks"] q) q hq)

/-- Looking again for legacy fields changes nothing more and gives the same advice. -/
theorem check_migrate (m : Mapping) : check (migrate m) = check m := by
  unfold check
  rw [advice_migrate, migrate_of_not_moves not_moves_migrate]

/-- A tree before and after the legacy hook is moved, if there is one to move. -/
structure Migrated (m t : Mapping) : Prop where
  moved : ∀ hook, Moves m hook → t.find? ["hooks", "onCompile"] = some hook
  unmoved : (∀ hook, ¬ Moves m hook) → t = m
  elsewhere : ∀ q, KeyPath.Apart ["hooks", "onCompile"] q → t.find? q = m.find? q
  /-- The keys of a mapping come before those that it gets. -/
  order : ∀ q fields, m.find? q = some (.mapping fields) →
    ∃ fields', t.find? q = some (.mapping fields') ∧ Entries.keys fields <+: Entries.keys fields'
  wellKeyed : (Value.mapping m).WellKeyed → (Value.mapping t).WellKeyed

theorem migrated_migrate (m : Mapping) : Migrated m (migrate m) where
  moved _ := find?_migrate_of_moves
  unmoved := migrate_of_not_moves
  elsewhere _ := find?_migrate_of_apart
  order q fields h := by
    obtain ⟨v, hv, hstays⟩ := kept_migrate m q (.mapping fields) (List.forall_mem_nil _) h rfl
    obtain ⟨fields', rfl, hkeys⟩ := hstays.exists_mapping
    exact ⟨fields', hv, hkeys⟩
  wellKeyed := wellKeyed_migrate

end AssetPlan.Legacy
