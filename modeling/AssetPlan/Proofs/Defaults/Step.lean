import AssetPlan.Defaults.Step
import AssetPlan.Proofs.Value.Kept

/-! # Runs of steps

A step is `Settled` in a configuration that it does not change. Every steady step settles itself, and a later
one undoes that only by writing at its target or above, so after a run every steady step is settled that all
later ones spare (`settled_run`). A run of settled steps changes nothing. -/

namespace AssetPlan
open Mapping
variable {m m' : Mapping} {path : List String} {key : String} {q : List String} {targets : List (List String)}
  {f : Mapping → Except ConfigError Mapping}

/-! ### Edited sections along a chain of keys -/

namespace Mapping

/-- The edited section is at the end of the chain, and below it is seen what was there before. -/
theorem find?_editAt (h : editAt path f m = .ok m') :
    ∃ old fields, f old = .ok fields ∧ m'.find? path = some (.mapping fields) ∧
      ∀ below, below ≠ [] → old.find? below = m.find? (path ++ below) := by
  induction path generalizing m m' with
  | nil => exact ⟨m, m', h, rfl, fun below _ => rfl⟩
  | cons key path ih =>
    obtain ⟨fields', hfields', rfl⟩ := editSection_eq_ok h
    obtain ⟨old, fields, hf, hfound, hold⟩ := ih hfields'
    refine ⟨old, fields, hf, (find?_insert m key _ path).trans hfound, fun below hbelow => ?_⟩
    rw [hold below hbelow]
    exact find?_child m key (List.append_ne_nil_of_right_ne_nil path hbelow)

theorem KeptOutside.editAt (targets : List (List String)) (hf : ∀ old fields, f old = .ok fields → KeptOutside targets old fields)
    (h : Mapping.editAt path f m = .ok m') : KeptOutside (targets.map (path ++ ·)) m m' := by
  induction path generalizing m m' with
  | nil =>
    rw [show (targets.map ([] ++ ·)) = targets from List.map_id _]
    exact hf m m' h
  | cons key path ih =>
    obtain ⟨fields, hfields, rfl⟩ := editSection_eq_ok h
    have hkept := KeptOutside.insert_fields (fun v => shape_of_editSection h) (ih hfields)
    rw [List.map_map] at hkept
    exact hkept

/-- A look-up that goes past the edited section sees what it sees in there. -/
theorem find?_editAt_of_past
    (hf : ∀ old fields, f old = .ok fields → ∀ below, path ++ below = q → fields.find? below = old.find? below)
    (h : editAt path f m = .ok m') (hq : ¬ q <+: path) : m'.find? q = m.find? q := by
  induction path generalizing m m' q with
  | nil => exact hf m m' h q rfl
  | cons key path ih =>
    obtain ⟨fields, hfields, rfl⟩ := editSection_eq_ok h
    cases q with
    | nil => exact absurd List.nil_prefix hq
    | cons first q =>
      by_cases hfirst : key = first
      · subst hfirst
        have hbelow : ¬ q <+: path := fun hp => hq (List.cons_prefix_cons.mpr ⟨rfl, hp⟩)
        have hne : q ≠ [] := fun hnil => hbelow (hnil.symm ▸ List.nil_prefix)
        rw [find?_insert, ← find?_child m key hne]
        exact ih (fun old fields hok below heq => hf old fields hok below (congrArg (key :: ·) heq)) hfields hbelow
      · exact find?_congr (Entries.get?_insert_of_ne hfirst _ _) q

theorem editAt_of_find? {fields : Mapping} (hfound : m.find? path = some (.mapping fields)) (hf : f fields = .ok fields) :
    editAt path f m = .ok m := by
  induction path generalizing m with
  | nil =>
    cases hfound
    exact hf
  | cons key path ih =>
    rw [find?_cons_eq] at hfound
    obtain ⟨v, hv, hbelow⟩ := Option.bind_eq_some_iff.mp hfound
    obtain ⟨es, rfl⟩ := Value.exists_of_find?_mapping hbelow
    exact editSection_self hv (ih hbelow)

end Mapping

namespace Step
variable {s : Step} {steps before after : List Step} {value : Mapping → Except ConfigError Value} {e : ConfigError}

/-! ### One step -/

/-- Where a step looks or writes. -/
def target : Step → List String
  | .openSection path key | .fill path key _ | .write path key _ | .requireText path key => path ++ [key]

/-- How a step treats what it finds at its target. -/
inductive Manner where
  /-- It makes a section where there is none. -/
  | opens
  /-- It asks for a text. -/
  | requires
  /-- It writes over nothing and null. -/
  | fills
  /-- It writes over anything. -/
  | writes
  deriving DecidableEq

/-- How a step treats what it finds at its target. -/
def manner : Step → Manner
  | .openSection _ _ => .opens
  | .requireText _ _ => .requires
  | .fill _ _ _ => .fills
  | .write _ _ _ => .writes

/-- What a step does, but for the value that it writes. -/
def outline (s : Step) : Manner × List String := (s.manner, s.target)

/-- The paths at which a step writes whatever stands there. -/
def written (s : Manner × List String) : List (List String) := if s.1 = .writes then [s.2] else []

/-- A look-up that does not see what a step does. -/
def Misses (q : List String) (s : Manner × List String) : Prop :=
  ¬ q <+: s.2 ∧ (s.1 = .fills ∨ s.1 = .writes → ¬ s.2 <+: q)

instance : DecidablePred (Misses q) := fun _ => inferInstanceAs (Decidable (_ ∧ _))

theorem Misses.past (hq : Misses q s.outline) (hs : s.target = path ++ [key]) : ¬ q <+: path :=
  fun h => hq.1 (show q <+: s.target from hs ▸ h.trans (List.prefix_append path [key]))

theorem Misses.apart (hq : Misses q s.outline) (hs : s.manner = .fills ∨ s.manner = .writes) :
    KeyPath.Apart s.target q := ⟨hq.2 hs, hq.1⟩

theorem kept_apply (h : s.apply m = .ok m') : KeptOutside (written s.outline) m m' := by
  cases s with
  | openSection path key =>
    refine KeptOutside.editAt [] (fun old fields hf => ?_) h
    obtain ⟨es, hes, rfl⟩ := editSection_eq_ok hf
    cases hes
    exact KeptOutside.insert_fields (fun v => shape_of_editSection hf) (KeptOutside.refl [] (old.child key))
  | fill path key value =>
    obtain ⟨v, hv, h⟩ := bind_eq_ok.mp h
    refine KeptOutside.editAt [] (fun old fields hf => ?_) h
    cases hf
    exact KeptOutside.setDefault old key v
  | write path key value =>
    obtain ⟨v, hv, h⟩ := bind_eq_ok.mp h
    refine KeptOutside.editAt [[key]] (fun old fields hf => ?_) h
    cases hf
    exact KeptOutside.insert old key v
  | requireText path key =>
    refine KeptOutside.editAt [] (fun old fields hf => ?_) h
    obtain ⟨text, -, hf⟩ := bind_eq_ok.mp hf
    cases hf
    exact .refl [] _

theorem find?_apply_of_misses (h : s.apply m = .ok m') (hq : Misses q s.outline) : m'.find? q = m.find? q := by
  cases s with
  | openSection path key =>
    refine find?_editAt_of_past (fun old fields hf below hbelow => ?_) h (hq.past rfl)
    subst hbelow
    obtain ⟨es, hes, rfl⟩ := editSection_eq_ok hf
    cases hes
    -- Below an opened section stands what stood there. The section itself is not looked up.
    by_cases hkey : [key] <+: below
    · obtain ⟨rest, rfl⟩ := hkey
      rw [List.singleton_append, find?_insert]
      refine find?_child old key fun hnil => hq.1 ?_
      rw [hnil]
      exact List.prefix_rfl
    · refine find?_insert_of_apart ⟨hkey, fun h => hq.1 ?_⟩ old _
      exact (List.prefix_append_right_inj path).mpr h
  | fill path key value =>
    obtain ⟨v, hv, h⟩ := bind_eq_ok.mp h
    refine find?_editAt_of_past (fun old fields hf below hbelow => ?_) h (hq.past rfl)
    subst hbelow
    cases hf
    unfold setDefault
    split
    · rfl
    · exact find?_insert_of_apart (hq.apart (.inl rfl)).of_append old v
  | write path key value =>
    obtain ⟨v, hv, h⟩ := bind_eq_ok.mp h
    refine find?_editAt_of_past (fun old fields hf below hbelow => ?_) h (hq.past rfl)
    subst hbelow
    cases hf
    exact find?_insert_of_apart (hq.apart (.inr rfl)).of_append old v
  | requireText path key =>
    refine find?_editAt_of_past (fun old fields hf below hbelow => ?_) h (hq.past rfl)
    obtain ⟨text, -, hf⟩ := bind_eq_ok.mp hf
    cases hf
    rfl

/-! ### Settled steps -/

/-- A step that changes nothing: what it would make or write is there. -/
def Settled (m : Mapping) : Step → Prop
  | .openSection path key => ∃ fields, m.find? (path ++ [key]) = some (.mapping fields)
  | .fill path key value => (∃ v, value m = .ok v) ∧ ∃ v, m.find? (path ++ [key]) = some v ∧ v.isNull = false
  | .write path key value => ∃ v, value m = .ok v ∧ m.find? (path ++ [key]) = some v
  | .requireText path key => ∃ text, m.find? (path ++ [key]) = some (.string text)

/-- A value to fill in that is never null, and that can be made in every configuration or in none. -/
structure Fillable (value : Mapping → Except ConfigError Value) : Prop where
  isNull : ∀ m v, value m = .ok v → v.isNull = false
  again : ∀ m m' v, value m = .ok v → ∃ v', value m' = .ok v'

/-- A step that fills in or writes what can stay: never null, and no mapping in place of any other value. -/
def Sound : Step → Prop
  | .fill _ _ value => Fillable value
  | .write _ _ value => ∀ m v, value m = .ok v → v.isNull = false ∧ v.isMapping = false
  | _ => True

/-- A step that writes its value again where the value stands already. -/
def Steady : Step → Prop
  | .write path key value => ∀ m m' v, value m = .ok v → m'.find? (path ++ [key]) = some v → value m' = .ok v
  | _ => True

/-- A later step does not write at the target of a step or above, or it writes what the step had filled in. -/
def Spares (later s : Manner × List String) : Prop :=
  later.1 = .writes → ¬ later.2 <+: s.2 ∨ s.1 = .fills ∧ later.2 = s.2

instance (later s : Manner × List String) : Decidable (Spares later s) := inferInstanceAs (Decidable (_ → _))

theorem apply_of_settled (h : s.Settled m) : s.apply m = .ok m := by
  cases s with
  | openSection path key =>
    obtain ⟨es, hes⟩ := h
    obtain ⟨fields, hfields, hkey⟩ := find?_concat_eq_some.mp hes
    have hsection : Mapping.editSection fields key .ok = .ok fields :=
      editSection_self hkey rfl
    exact editAt_of_find? hfields hsection
  | fill path key value =>
    obtain ⟨⟨w, hw⟩, v, hv, hnull⟩ := h
    obtain ⟨fields, hfields, hkey⟩ := find?_concat_eq_some.mp hv
    show (value m >>= _) = _
    rw [hw]
    exact editAt_of_find? hfields (congrArg Except.ok (if_pos (hasValue_iff.mpr ⟨v, hkey, hnull⟩)))
  | write path key value =>
    obtain ⟨v, hv, hfound⟩ := h
    obtain ⟨fields, hfields, hkey⟩ := find?_concat_eq_some.mp hfound
    show (value m >>= _) = _
    rw [hv]
    exact editAt_of_find? hfields (congrArg Except.ok (Entries.insert_of_get?_eq_some hkey))
  | requireText path key =>
    obtain ⟨text, hfound⟩ := h
    obtain ⟨fields, hfields, hkey⟩ := find?_concat_eq_some.mp hfound
    refine editAt_of_find? hfields ?_
    have htext : Mapping.text? fields path key = .ok text := by
      unfold text?
      rw [hkey]
    rw [htext]
    rfl

theorem apply_write_of_get? {fields : Mapping} {setting : String} {v : Value} (hv : value m = .ok v)
    (h : Entries.get? m key = some (.mapping fields)) :
    (Step.write [key] setting value).apply m = .ok (Entries.insert m key (.mapping (Entries.insert fields setting v))) := by
  show (value m >>= fun v => Mapping.editAt [key] (fun fields => .ok (Entries.insert fields setting v)) m) = _
  rw [hv]
  exact editSection_of_get? h rfl

theorem find?_apply_write (h : (Step.write path key value).apply m = .ok m') :
    ∃ v, value m = .ok v ∧ m'.find? (path ++ [key]) = some v := by
  obtain ⟨v, hv, h⟩ := bind_eq_ok.mp h
  obtain ⟨old, fields, hf, hfound, -⟩ := find?_editAt h
  cases hf
  exact ⟨v, hv, find?_concat_eq_some.mpr ⟨_, hfound, Entries.get?_insert_self _ _ _⟩⟩

/-- A steady step settles itself. -/
theorem settled_of_apply (h : s.apply m = .ok m') (hs : s.Sound) (hsteady : s.Steady) : s.Settled m' := by
  cases s with
  | openSection path key =>
    obtain ⟨old, fields, hf, hfound, -⟩ := find?_editAt h
    obtain ⟨es, -, rfl⟩ := editSection_eq_ok hf
    exact ⟨es, find?_concat_eq_some.mpr ⟨_, hfound, Entries.get?_insert_self _ _ _⟩⟩
  | fill path key value =>
    obtain ⟨v, hv, h⟩ := bind_eq_ok.mp h
    obtain ⟨old, fields, hf, hfound, -⟩ := find?_editAt h
    cases hf
    refine ⟨hs.again m m' v hv, ?_⟩
    unfold setDefault at hfound
    split at hfound
    · rename_i hset
      obtain ⟨w, hw, hnull⟩ := hasValue_iff.mp hset
      exact ⟨w, find?_concat_eq_some.mpr ⟨old, hfound, hw⟩, hnull⟩
    · exact ⟨v, find?_concat_eq_some.mpr ⟨_, hfound, Entries.get?_insert_self _ _ _⟩, hs.isNull m v hv⟩
  | write path key value =>
    obtain ⟨v, hv, hfound⟩ := find?_apply_write h
    exact ⟨v, hsteady m m' v hv hfound, hfound⟩
  | requireText path key =>
    obtain ⟨old, fields, hf, hfound, -⟩ := find?_editAt h
    obtain ⟨text, htext, hf⟩ := bind_eq_ok.mp hf
    cases hf
    exact ⟨text, find?_concat_eq_some.mpr ⟨old, hfound, text?_eq_ok htext⟩⟩

/-- A steady step stays settled while its target is kept. -/
theorem Settled.kept (h : s.Settled m) (hkept : KeptOutside targets m m') (hs : s.Sound) (hsteady : s.Steady)
    (hfree : ∀ target ∈ targets, ¬ target <+: s.target) : s.Settled m' := by
  cases s with
  | openSection path key =>
    obtain ⟨es, hes⟩ := h
    exact hkept.find?_section hfree hes
  | fill path key value =>
    obtain ⟨⟨w, hw⟩, v, hv, hnull⟩ := h
    obtain ⟨v', hv', hstays⟩ := hkept _ _ hfree hv hnull
    exact ⟨hs.again m m' w hw, v', hv', hstays.isNull hnull⟩
  | write path key value =>
    obtain ⟨v, hv, hfound⟩ := h
    obtain ⟨hnull, hleaf⟩ := hs m v hv
    have hfound' := hkept.find?_leaf hfree hfound hnull hleaf
    exact ⟨v, hsteady m m' v hv hfound', hfound'⟩
  | requireText path key =>
    obtain ⟨text, htext⟩ := h
    exact ⟨text, hkept.find?_leaf hfree htext rfl rfl⟩

/-- A steady step stays settled through a later one that spares it. -/
theorem Settled.apply {later : Step} (h : s.Settled m) (hlater : later.apply m = .ok m') (hs : s.Sound)
    (hsteady : s.Steady) (hsound : later.Sound) (hspares : Spares later.outline s.outline) : s.Settled m' := by
  by_cases hw : later.manner = .writes
  · rcases hspares hw with hfree | ⟨hfills, htarget⟩
    · refine h.kept (kept_apply hlater) hs hsteady fun target ht => ?_
      rw [written, if_pos (show later.outline.1 = .writes from hw)] at ht
      rw [List.mem_singleton.mp ht]
      exact hfree
    -- A later write at the target of a fill: what it leaves is not null either.
    · cases later with
      | write path key value =>
        obtain ⟨v, hv, hfound⟩ := find?_apply_write hlater
        cases s with
        | fill path' key' value' =>
          obtain ⟨⟨w, hvalue⟩, -⟩ := h
          change path ++ [key] = path' ++ [key'] at htarget
          exact ⟨hs.again m m' w hvalue, v, htarget ▸ hfound, (hsound m v hv).1⟩
        | _ => cases hfills
      | _ => cases hw
  · refine h.kept (kept_apply hlater) hs hsteady fun target ht => ?_
    rw [written, if_neg (show ¬ later.outline.1 = .writes from hw)] at ht
    cases ht

/-! ### A run -/

theorem run_cons_eq_ok : run m (s :: steps) = (m', none) ↔ ∃ mid, s.apply m = .ok mid ∧ run mid steps = (m', none) := by
  rw [run]
  cases s.apply m with
  | error e =>
    constructor
    · intro h
      cases h
    · rintro ⟨mid, h, -⟩
      cases h
  | ok mid =>
    constructor
    · intro h
      exact ⟨mid, rfl, h⟩
    · rintro ⟨mid', h, hrest⟩
      cases h
      exact hrest

/-- A run goes on after its first part unless that fails. -/
theorem run_append : run m (before ++ after) =
    match run m before with
    | (mid, none) => run mid after
    | (mid, some e) => (mid, some e) := by
  induction before generalizing m with
  | nil => rfl
  | cons s before ih =>
    rw [List.cons_append, run, run]
    cases s.apply m with
    | error e => rfl
    | ok mid => exact ih

theorem run_append_eq_ok :
    run m (before ++ after) = (m', none) ↔ ∃ mid, run m before = (mid, none) ∧ run mid after = (m', none) := by
  rw [run_append]
  generalize run m before = outcome
  obtain ⟨mid, _ | e⟩ := outcome <;> simp

/-- A run keeps what it does not write over, also if it fails midway. -/
theorem kept_run {outcome : Option ConfigError} (h : run m steps = (m', outcome)) :
    KeptOutside ((steps.map outline).flatMap written) m m' := by
  induction steps generalizing m with
  | nil =>
    cases h
    exact .refl [] _
  | cons s steps ih =>
    rw [run] at h
    cases hs : s.apply m with
    | error e =>
      rw [hs] at h
      cases h
      exact .refl _ _
    | ok mid =>
      rw [hs] at h
      exact (kept_apply hs).trans (ih h)

/-- A run ends before a step and keeps what it has not written over by then, or it goes on after the step. -/
theorem kept_or_past {outcome : Option ConfigError} (h : run m (before ++ s :: after) = (m', outcome)) :
    KeptOutside ((before.map outline).flatMap written) m m' ∨
      ∃ mid next, run m before = (mid, none) ∧ s.apply mid = .ok next ∧ run next after = (m', outcome) := by
  rw [run_append] at h
  cases hbefore : run m before with
  | mk mid failed =>
  have hkept := kept_run hbefore
  rw [hbefore] at h
  cases failed with
  | some e =>
    cases h
    exact .inl hkept
  | none =>
    dsimp only at h
    rw [run] at h
    cases happly : s.apply mid with
    | error e =>
      rw [happly] at h
      cases h
      exact .inl hkept
    | ok next =>
      rw [happly] at h
      exact .inr ⟨mid, next, rfl, happly, h⟩

theorem find?_run_of_misses (h : run m steps = (m', none)) (hq : ∀ s ∈ steps.map outline, Misses q s) : m'.find? q = m.find? q := by
  induction steps generalizing m with
  | nil =>
    cases h
    rfl
  | cons s steps ih =>
    obtain ⟨mid, hmid, hrest⟩ := run_cons_eq_ok.mp h
    exact (ih hrest fun t ht => hq t (List.mem_cons_of_mem _ ht)).trans
      (find?_apply_of_misses hmid (hq s.outline List.mem_cons_self))

/-- A steady step stays settled through a run that spares it. -/
theorem Settled.run (h : s.Settled m) (hrun : Step.run m steps = (m', none)) (hs : s.Sound) (hsteady : s.Steady)
    (hsound : ∀ later ∈ steps, later.Sound) (hspares : ∀ later ∈ steps, Spares later.outline s.outline) :
    s.Settled m' := by
  induction steps generalizing m with
  | nil =>
    cases hrun
    exact h
  | cons first steps ih =>
    obtain ⟨mid, hmid, hrest⟩ := run_cons_eq_ok.mp hrun
    have hnext : s.Settled mid :=
      h.apply hmid hs hsteady (hsound first List.mem_cons_self) (hspares first List.mem_cons_self)
    exact ih hnext hrest (fun t ht => hsound t (List.mem_cons_of_mem first ht))
      fun t ht => hspares t (List.mem_cons_of_mem first ht)

/-- After a run every steady step is settled that all later ones spare. -/
theorem settled_run (h : run m steps = (m', none)) (hsound : ∀ s ∈ steps, s.Sound)
    (hspares : (steps.map outline).Pairwise fun s later => Spares later s) (hs : s ∈ steps) (hsteady : s.Steady) :
    s.Settled m' := by
  induction steps generalizing m with
  | nil => cases hs
  | cons first steps ih =>
    obtain ⟨mid, hmid, hrest⟩ := run_cons_eq_ok.mp h
    obtain ⟨hfirst, hspares⟩ := List.pairwise_cons.mp hspares
    have hsound' : ∀ s ∈ steps, s.Sound := fun t ht => hsound t (List.mem_cons_of_mem first ht)
    rcases List.mem_cons.mp hs with rfl | hs
    · have hs := hsound s List.mem_cons_self
      exact (settled_of_apply hmid hs hsteady).run hrest hs hsteady hsound' fun t ht =>
        hfirst t.outline (List.mem_map_of_mem ht)
    · exact ih hrest hsound' hspares hs

/-- What a run writes at a path and not over again stands there. The value was made on the way, in a
    configuration that agrees with the last one wherever no later step is seen. -/
theorem find?_run_write (h : run m (before ++ .write path key value :: after) = (m', none))
    (hsound : (Step.write path key value).Sound)
    (hfree : ∀ target ∈ (after.map outline).flatMap written, ¬ target <+: path ++ [key]) :
    ∃ mid v, value mid = .ok v ∧ m'.find? (path ++ [key]) = some v ∧
      ∀ q, (∀ s ∈ (.writes, path ++ [key]) :: after.map outline, Misses q s) → m'.find? q = mid.find? q := by
  obtain ⟨mid, -, hrest⟩ := run_append_eq_ok.mp h
  obtain ⟨next, hnext, hafter⟩ := run_cons_eq_ok.mp hrest
  obtain ⟨v, hv, hfound⟩ := find?_apply_write hnext
  obtain ⟨hnull, hleaf⟩ := hsound mid v hv
  exact ⟨mid, v, hv, (kept_run hafter).find?_leaf hfree hfound hnull hleaf, fun q hq => find?_run_of_misses hrest hq⟩

theorem run_of_settled (h : ∀ s ∈ steps, s.Settled m) : run m steps = (m, none) := by
  induction steps with
  | nil => rfl
  | cons s steps ih =>
    exact run_cons_eq_ok.mpr ⟨m, apply_of_settled (h s List.mem_cons_self), ih fun t ht => h t (List.mem_cons_of_mem s ht)⟩

end Step
end AssetPlan
