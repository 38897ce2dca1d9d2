import AssetPlan.Proofs.ConfigError
import AssetPlan.Proofs.Defaults.Step

/-! # Where values and errors of steps come from

A value that stands in a tree after a step stood there before, or it is a section that the step opened, or the step
made it (`Origin`). A step fails because it cannot open a section, cannot make its value or does not find the text
that it asks for (`Failure`), and a run fails with the first step that does. -/

namespace AssetPlan
open Mapping
variable {m m' : Mapping} {path : List String} {key : String} {q : List String} {v : Value} {e : ConfigError}
  {f : Mapping → Except ConfigError Mapping}

/-! ### Edited sections along a chain of keys -/

namespace Mapping

theorem isMapping_of_front {fields : Mapping} (hq : q <+: path) (hfields : m.find? path = some (.mapping fields))
    (hv : m.find? q = some v) : v.isMapping = true := by
  obtain ⟨below, rfl⟩ := hq
  have hsplit : m.find? (q ++ below) = (m.find? q).bind (Value.find? · below) := Value.find?_append (.mapping m) q below
  rw [hsplit, hv] at hfields
  obtain ⟨es, rfl⟩ := Value.exists_of_find?_mapping hfields
  rfl

theorem find?_editAt_origin (h : editAt path f m = .ok m') (hv : m'.find? q = some v) :
    m.find? q = some v ∨ (v.isMapping = true ∧ q <+: path) ∨
      ∃ old fields below, below ≠ [] ∧ q = path ++ below ∧ f old = .ok fields ∧ fields.find? below = some v ∧
        ∀ below, below ≠ [] → old.find? below = m.find? (path ++ below) := by
  obtain ⟨old, fields, hf, hfields, hold⟩ := find?_editAt h
  by_cases hq : q <+: path
  · exact .inr (.inl ⟨isMapping_of_front hq hfields hv, hq⟩)
  by_cases hpath : path <+: q
  · obtain ⟨below, rfl⟩ := hpath
    have hbelow : below ≠ [] := fun hnil => hq (by simp [hnil])
    have hsplit : m'.find? (path ++ below) = (m'.find? path).bind (Value.find? · below) :=
      Value.find?_append (.mapping m') path below
    rw [hsplit, hfields] at hv
    exact .inr (.inr ⟨old, fields, below, hbelow, rfl, hf, hv, hold⟩)
  · rw [find?_editAt_of_past (fun _ _ _ below heq => absurd ⟨below, heq⟩ hpath) h hq] at hv
    exact .inl hv

/-- An edit fails because a section on the way is none, or at its end. -/
theorem editAt_eq_error (h : editAt path f m = .error e) :
    (∃ front key v, front ++ [key] <+: path ∧ m.find? (front ++ [key]) = some v ∧ v.isNull = false ∧ v.isMapping = false ∧
      e = .structural [key] (.ofKind .mapping v)) ∨
    ∃ old, f old = .error e ∧ ∀ below, below ≠ [] → old.find? below = m.find? (path ++ below) := by
  induction path generalizing m with
  | nil => exact .inr ⟨m, h, fun _ _ => rfl⟩
  | cons first path ih =>
    -- The chain breaks at its first key, or further down, or the edit at its end fails.
    rcases bind_eq_error.mp h with hopen | ⟨fields, hfields, h⟩
    · obtain ⟨v, hv, hnull, hmapping, he⟩ := fields?_eq_error hopen
      exact .inl ⟨[], first, v, by simp, (find?_singleton m first).trans hv, hnull, hmapping, he⟩
    · obtain rfl := fields?_eq_ok hfields
      rcases bind_eq_error.mp h with hedit | ⟨_, -, h⟩
      · rcases ih hedit with ⟨front, key, v, hfront, hv, hshape⟩ | ⟨old, hold, hbelow⟩
        · refine .inl ⟨first :: front, key, v, List.cons_prefix_cons.mpr ⟨rfl, hfront⟩, ?_, hshape⟩
          rw [← hv]
          exact (find?_child m first (by simp)).symm
        · refine .inr ⟨old, hold, fun below hne => ?_⟩
          rw [hbelow below hne]
          exact find?_child m first (by simp [hne])
      · cases h

end Mapping

namespace Step
variable {s : Step} {steps : List Step} {value : Mapping → Except ConfigError Value}

/-- The value that a step writes or fills in. -/
def value? : Step → Option (Mapping → Except ConfigError Value)
  | .fill _ _ value | .write _ _ value => some value
  | _ => none

theorem manner_of_value? (h : s.value? = some value) : s.manner = .fills ∨ s.manner = .writes := by
  cases s with
  | fill path key value => exact .inl rfl
  | write path key value => exact .inr rfl
  | _ => cases h

/-! ### Values -/

/-- Where a value comes from that stands in a tree after a step. -/
inductive Origin (s : Step) (m : Mapping) (q : List String) (v : Value) : Prop
  | kept (h : m.find? q = some v)
  | opened (hv : v.isMapping = true) (hq : q <+: s.target) (hopens : q = s.target → s.manner = .opens)
  | made {value : Mapping → Except ConfigError Value} {w : Value} {below : List String} (hvalue : s.value? = some value)
    (hw : value m = .ok w) (hq : q = s.target ++ below) (hv : w.find? below = some v)
    (hunset : s.manner = .fills → ∀ u, m.find? s.target = some u → u.isNull = true)

theorem Origin.of_past (hv : v.isMapping = true) (hq : q <+: path) (hs : s.target = path ++ [key]) : Origin s m q v := by
  refine .opened hv (hs ▸ hq.trans (List.prefix_append path [key])) fun heq => ?_
  have hlength := hq.length_le
  rw [heq, hs, List.length_append] at hlength
  exact absurd hlength (by simp)

/-- Below the place of a new value stands what the value holds, and elsewhere what was there before. -/
theorem origin_insert {old : Mapping} {w : Value} {below : List String}
    (hv : Mapping.find? (Entries.insert old key w) below = some v) (hne : below ≠ []) :
    old.find? below = some v ∨ ∃ rest, below = key :: rest ∧ w.find? rest = some v := by
  cases below with
  | nil => exact absurd rfl hne
  | cons first rest =>
    by_cases hkey : key = first
    · subst hkey
      rw [find?_insert] at hv
      exact .inr ⟨rest, rfl, hv⟩
    · rw [find?_congr (Entries.get?_insert_of_ne hkey old w)] at hv
      exact .inl hv

/-- An edit adds nothing but its sections on the way and what it makes of the section at the end. -/
theorem Origin.of_editAt (hs : s.target = path ++ [key]) (h : editAt path f m = .ok m') (hv : m'.find? q = some v)
    (hedit : ∀ old fields below, below ≠ [] → q = path ++ below → f old = .ok fields → fields.find? below = some v →
      (∀ below, below ≠ [] → old.find? below = m.find? (path ++ below)) → Origin s m q v) : Origin s m q v := by
  rcases find?_editAt_origin h hv with hkept | ⟨hmapping, hq⟩ | ⟨old, fields, below, hne, hq, hf, hfound, hold⟩
  · exact .kept hkept
  · exact .of_past hmapping hq hs
  · exact hedit old fields below hne hq hf hfound hold

theorem origin_of_apply (h : s.apply m = .ok m') (hv : m'.find? q = some v) : Origin s m q v := by
  cases s with
  | openSection path key =>
    refine .of_editAt rfl h hv fun old fields below hne hq hf hfound hold => ?_
    subst hq
    obtain ⟨es, hes, rfl⟩ := editSection_eq_ok hf
    cases hes
    rcases origin_insert hfound hne with hkept | ⟨rest, rfl, hrest⟩
    · exact .kept ((hold below hne).symm.trans hkept)
    · cases rest with
      | nil =>
        cases hrest
        exact .opened rfl List.prefix_rfl fun _ => rfl
      | cons first rest =>
        -- What stands in the opened section stood there before: a new section is empty.
        refine .kept ((hold _ hne).symm.trans ?_)
        rw [← find?_child old key (List.cons_ne_nil first rest)]
        exact hrest
  | fill path key value =>
    obtain ⟨w, hw, h⟩ := bind_eq_ok.mp h
    refine .of_editAt rfl h hv fun old fields below hne hq hf hfound hold => ?_
    subst hq
    cases hf
    unfold setDefault at hfound
    split at hfound
    · exact .kept ((hold below hne).symm.trans hfound)
    · rename_i hunset
      rcases origin_insert hfound hne with hkept | ⟨rest, rfl, hrest⟩
      · exact .kept ((hold below hne).symm.trans hkept)
      · refine .made rfl hw (List.append_cons _ _ _) hrest fun _ u hu => ?_
        have hget := (hold [key] (by simp)).trans hu
        rw [find?_singleton] at hget
        exact eq_true_of_ne_false fun hset => hunset (hasValue_iff.mpr ⟨u, hget, hset⟩)
  | write path key value =>
    obtain ⟨w, hw, h⟩ := bind_eq_ok.mp h
    refine .of_editAt rfl h hv fun old fields below hne hq hf hfound hold => ?_
    subst hq
    cases hf
    rcases origin_insert hfound hne with hkept | ⟨rest, rfl, hrest⟩
    · exact .kept ((hold below hne).symm.trans hkept)
    · exact .made rfl hw (List.append_cons _ _ _) hrest nofun
  | requireText path key =>
    refine .of_editAt rfl h hv fun old fields below hne hq hf hfound hold => ?_
    subst hq
    obtain ⟨text, -, hf⟩ := bind_eq_ok.mp hf
    cases hf
    exact .kept ((hold below hne).symm.trans hfound)

/-! ### Errors -/

/-- Why a step fails. -/
inductive Failure (s : Step) (m : Mapping) : ConfigError → Prop
  | opening {front : List String} {key : String} {v : Value} (hq : front ++ [key] <+: s.target)
    (hopens : front ++ [key] = s.target → s.manner = .opens) (hv : m.find? (front ++ [key]) = some v)
    (hnull : v.isNull = false) (hmapping : v.isMapping = false) : Failure s m (.structural [key] (.ofKind .mapping v))
  | making {value : Mapping → Except ConfigError Value} {e : ConfigError} (hvalue : s.value? = some value)
    (he : value m = .error e) : Failure s m e
  | missing {e : ConfigError} (hs : s.manner = .requires) (h : m.find? s.target = none) : Failure s m e
  | asking {v : Value} (hs : s.manner = .requires) (hv : m.find? s.target = some v) (hstring : ¬ Shape.string.Fits v) :
    Failure s m (.structural s.target (.ofKind .string v))

theorem Failure.of_section {front : List String} {setting : String} (hs : s.target = path ++ [key])
    (hfront : front ++ [setting] <+: path) (hv : m.find? (front ++ [setting]) = some v) (hnull : v.isNull = false)
    (hmapping : v.isMapping = false) : Failure s m (.structural [setting] (.ofKind .mapping v)) := by
  refine .opening (hs ▸ hfront.trans (List.prefix_append path [key])) (fun heq => ?_) hv hnull hmapping
  have hlength := hfront.length_le
  rw [heq, hs, List.length_append] at hlength
  exact absurd hlength (by simp)

theorem failure_of_apply (h : s.apply m = .error e) : Failure s m e := by
  cases s with
  | openSection path key =>
    rcases editAt_eq_error h with ⟨front, setting, v, hfront, hv, hnull, hmapping, rfl⟩ | ⟨old, hold, hbelow⟩
    · exact .of_section rfl hfront hv hnull hmapping
    · rcases bind_eq_error.mp hold with hopen | ⟨fields, -, hold⟩
      · obtain ⟨v, hv, hnull, hmapping, rfl⟩ := fields?_eq_error hopen
        refine .opening List.prefix_rfl (fun _ => rfl) ?_ hnull hmapping
        rw [← hbelow [key] (by simp), find?_singleton]
        exact hv
      · cases hold
  -- Filling in and writing fail alike: the value cannot be made, or a section on the way is none.
  | fill path key value | write path key value =>
    rcases bind_eq_error.mp h with hvalue | ⟨w, -, h⟩
    · exact .making rfl hvalue
    · rcases editAt_eq_error h with ⟨front, setting, v, hfront, hv, hnull, hmapping, rfl⟩ | ⟨old, hold, -⟩
      · exact .of_section rfl hfront hv hnull hmapping
      · cases hold
  | requireText path key =>
    rcases editAt_eq_error h with ⟨front, setting, v, hfront, hv, hnull, hmapping, rfl⟩ | ⟨old, hold, hbelow⟩
    · exact .of_section rfl hfront hv hnull hmapping
    · have htarget : Entries.get? old key = m.find? (path ++ [key]) := by
        rw [← hbelow [key] (by simp), find?_singleton]
      rcases bind_eq_error.mp hold with htext | ⟨text, -, hold⟩
      · rcases text?_eq_error htext with hnone | ⟨v, hv, hstring, rfl⟩
        · exact .missing rfl (htarget.symm.trans hnone)
        · exact .asking (s := .requireText path key) rfl (htarget.symm.trans hv) hstring
      · cases hold

/-- A run fails with the first step that does. -/
theorem run_eq_error (h : run m steps = (m', some e)) :
    ∃ before s after, steps = before ++ s :: after ∧ run m before = (m', none) ∧ s.apply m' = .error e := by
  induction steps generalizing m with
  | nil => cases h
  | cons s steps ih =>
    rw [run] at h
    cases hs : s.apply m with
    | error e' =>
      rw [hs] at h
      cases h
      exact ⟨[], s, steps, rfl, rfl, hs⟩
    | ok mid =>
      rw [hs] at h
      obtain ⟨before, t, after, rfl, hbefore, ht⟩ := ih h
      exact ⟨s :: before, t, after, rfl, run_cons_eq_ok.mpr ⟨mid, hs, hbefore⟩, ht⟩

end Step
end AssetPlan
