import AssetPlan.Proofs.Cascade.Server

/-! # The layers of a cascade

A cascade is a fold that merges layers in order, each as the configuration declares it by then (`applied`). As
long as none of them writes to `overrides` they are known before it runs: those that the configuration declares
for its environments, with the snapshot of its sections standing for `snapshotName` (`applied_eq_layers`). What a
fold leaves is the last word on it (`foldl_last_word`). -/

namespace AssetPlan.Cascade
open Mapping
variable {config current layer : Mapping} {environment : String}

/-- The layer that is declared for an environment. -/
def declaredLayer? (config : Mapping) (environment : String) : Option Mapping :=
  ((Entries.get? config "overrides").bind (·.get? environment)).bind Value.mapping?

/-- The layer of an environment in a cascade over a configuration: if there are overrides at all, the
    sections of the configuration itself stand for the snapshot. -/
def layerOf? (config : Mapping) (environment : String) : Option Mapping :=
  if config.hasValue "overrides" ∧ environment = snapshotName then some (snapshot config)
  else declaredLayer? config environment

/-- The layers of the environments in order. -/
def layers (config : Mapping) (environments : List String) : List Mapping := environments.filterMap (layerOf? config)

/-- The configuration with the snapshot of its sections. -/
def snapshotted (config : Mapping) : Mapping :=
  if config.hasValue "overrides" then
    config.modifyChild "overrides" fun overrides => Entries.insert overrides snapshotName (.mapping (snapshot config))
  else config

/-- The configuration that the first layer is merged over. -/
def start (config : Mapping) (environments : List String) : Mapping :=
  if environments.isEmpty then config else snapshotted config

/-- The configuration with one more layer. -/
def applyLayer (config layer : Mapping) : Mapping := Mapping.merge .cascade config (reconcileToggles config layer)

/-- The configuration with the layers of all environments. -/
def overlaid (config : Mapping) (environments : List String) : Mapping :=
  (layers config environments).foldl applyLayer (start config environments)

/-! ### The snapshot -/

theorem get?_snapshot (hw : (Value.mapping config).WellKeyed) {key : String} (hne : key ≠ "overrides") :
    Entries.get? (snapshot config) key = (Entries.get? config key).filter Value.isMapping := by
  unfold snapshot
  rw [Entries.get?_filter hw.1]
  simp [hne]

theorem overrides_snapshot (hw : (Value.mapping config).WellKeyed) :
    Entries.get? (snapshot config) "overrides" = none := by
  unfold snapshot
  rw [Entries.get?_filter hw.1]
  simp

/-- Below the first level the snapshot is the configuration. -/
theorem find?_snapshot (hw : (Value.mapping config).WellKeyed) {key : String} (hne : key ≠ "overrides")
    (below : String) (q : List String) :
    (snapshot config).find? (key :: below :: q) = config.find? (key :: below :: q) := by
  rw [find?_cons_eq, find?_cons_eq, get?_snapshot hw hne]
  cases Entries.get? config key with
  | none => rfl
  | some v => cases v <;> rfl

/-! ### One environment -/

theorem withSnapshot_eq_ok (h : withSnapshot config = .ok current) : current = snapshotted config := by
  unfold withSnapshot at h
  unfold snapshotted
  split at h
  · obtain ⟨fields, hfields, rfl⟩ := editSection_eq_ok h
    cases hfields
    rename_i hv
    rw [if_pos hv]
    rfl
  · rename_i hv
    cases h
    rw [if_neg hv]

theorem get?_start {key : String} (hne : key ≠ "overrides") (environments : List String) :
    Entries.get? (start config environments) key = Entries.get? config key := by
  unfold start snapshotted
  split
  · rfl
  · split
    · exact (Entries.get?_insert _ _ _ _).trans (if_neg hne.symm)
    · rfl

/-- The snapshot is declared for its name, and nothing else is changed among the overrides. -/
theorem declaredLayer?_snapshotted (config : Mapping) (environment : String) :
    declaredLayer? (snapshotted config) environment = layerOf? config environment := by
  unfold snapshotted layerOf?
  split
  · rename_i hv
    have hget : Entries.get? (config.modifyChild "overrides" fun overrides =>
        Entries.insert overrides snapshotName (.mapping (snapshot config))) "overrides" =
          some (.mapping (Entries.insert (config.child "overrides") snapshotName (.mapping (snapshot config)))) :=
      (Entries.get?_insert _ _ _ _).trans (if_pos rfl)
    unfold declaredLayer?
    rw [hget]
    show (Entries.get? (Entries.insert _ _ _) environment).bind Value.mapping? = _
    rw [Entries.get?_insert]
    by_cases hname : snapshotName = environment
    · rw [if_pos hname, if_pos ⟨hv, hname.symm⟩]
      rfl
    · rw [if_neg hname, if_neg fun h => hname h.2.symm]
      unfold child
      cases Entries.get? config "overrides" with
      | none => rfl
      | some v => cases v <;> rfl
  · rename_i hv
    rw [if_neg fun h => hv h.1]

theorem wellKeyed_declaredLayer (hw : (Value.mapping config).WellKeyed) (h : declaredLayer? config environment = some layer) :
    (Value.mapping layer).WellKeyed := by
  obtain ⟨v, hv, h⟩ := Option.bind_eq_some_iff.mp h
  obtain ⟨overrides, ho, hv⟩ := Option.bind_eq_some_iff.mp hv
  cases overrides with
  | mapping es =>
    cases v with
    | mapping fields =>
      cases h
      exact (hw.get? ho).get? hv
    | _ => cases h
  | _ => cases hv

/-- Layers are parts of the configuration. -/
theorem wellKeyed_layers (hw : (Value.mapping config).WellKeyed) {environments : List String}
    (h : layer ∈ layers config environments) : (Value.mapping layer).WellKeyed := by
  obtain ⟨environment, -, h⟩ := List.mem_filterMap.mp h
  unfold layerOf? at h
  split at h
  · cases h
    exact hw.filter _
  · exact wellKeyed_declaredLayer hw h

theorem wellKeyed_snapshotted (hw : (Value.mapping config).WellKeyed) : (Value.mapping (snapshotted config)).WellKeyed := by
  unfold snapshotted
  split
  · exact hw.insert _ ((hw.child _).insert _ (hw.filter _))
  · exact hw

theorem declaredLayer?_congr (h : Entries.get? current "overrides" = Entries.get? config "overrides") :
    declaredLayer? current environment = declaredLayer? config environment := by
  unfold declaredLayer?
  rw [h]

theorem layer?_eq_ok {found : Option Mapping} (h : layer? config environment = .ok found) :
    found = declaredLayer? config environment := by
  unfold layer? at h
  unfold declaredLayer?
  cases hv : (Entries.get? config "overrides").bind (·.get? environment) with
  | none =>
    rw [hv] at h
    cases h
    rfl
  | some v =>
    rw [hv] at h
    cases v with
    | null =>
      cases h
      rfl
    | mapping es =>
      cases h
      rfl
    | _ => cases h

theorem applyEnvironment_eq_ok {next : Mapping} (h : applyEnvironment current environment = .ok next) :
    next = (declaredLayer? current environment).toList.foldl applyLayer current := by
  obtain ⟨found, hfound, h⟩ := bind_eq_ok.mp h
  obtain rfl := layer?_eq_ok hfound
  cases hd : declaredLayer? current environment with
  | none =>
    rw [hd] at h
    cases h
    rfl
  | some layer =>
    rw [hd] at h
    cases h
    rfl

/-! ### What reconciling leaves alone -/

theorem get?_carry {toggle : Toggle} {key : String} (hne : key ≠ "plugins") :
    Entries.get? (toggle.carry current layer) key = Entries.get? layer key := by
  unfold Toggle.carry
  split
  · rfl
  · exact (Entries.get?_insert _ _ _ _).trans (if_neg hne.symm)

theorem get?_reconcileToggles {key : String} (hne : key ≠ "plugins") :
    Entries.get? (reconcileToggles current layer) key = Entries.get? layer key := by
  unfold reconcileToggles
  split
  · rw [get?_carry hne, get?_carry hne]
  · rfl

theorem wellKeyed_carry {toggle : Toggle} (hw : (Value.mapping layer).WellKeyed) :
    (Value.mapping (toggle.carry current layer)).WellKeyed := by
  unfold Toggle.carry
  split
  · exact hw
  · exact hw.insert _ ((hw.child "plugins").insert _ (Value.wellKeyed_ofStrings _))

theorem wellKeyed_reconcileToggles (hw : (Value.mapping layer).WellKeyed) :
    (Value.mapping (reconcileToggles current layer)).WellKeyed := by
  unfold reconcileToggles
  split
  · exact wellKeyed_carry (wellKeyed_carry hw)
  · exact hw

theorem wellKeyed_applyLayer (hc : (Value.mapping current).WellKeyed) (hw : (Value.mapping layer).WellKeyed) :
    (Value.mapping (applyLayer current layer)).WellKeyed := wellKeyed_merge hc (wellKeyed_reconcileToggles hw)

theorem overrides_applyLayer (h : Entries.get? layer "overrides" = none) :
    Entries.get? (applyLayer current layer) "overrides" = Entries.get? current "overrides" := by
  unfold applyLayer
  rw [get?_merge_of_none]
  rw [get?_reconcileToggles (by decide)]
  exact h

/-! ### All environments -/

/-- The layers of environments, each as it is declared in the configuration that it is merged over. -/
def appliedFrom (current : Mapping) : List String → List Mapping
  | [] => []
  | environment :: rest =>
    match declaredLayer? current environment with
    | none => appliedFrom current rest
    | some layer => layer :: appliedFrom (applyLayer current layer) rest

/-- The layers that a cascade merges for its environments, in order. -/
def applied (config : Mapping) (environments : List String) : List Mapping :=
  appliedFrom (start config environments) environments

theorem foldlM_applyEnvironment {environments : List String} {next : Mapping}
    (h : environments.foldlM applyEnvironment current = .ok next) :
    next = (appliedFrom current environments).foldl applyLayer current := by
  induction environments generalizing current with
  | nil =>
    cases h
    rfl
  | cons environment rest ih =>
    obtain ⟨middle, hmiddle, hrest⟩ := foldlM_cons_eq_ok.mp h
    have hfirst := applyEnvironment_eq_ok hmiddle
    unfold appliedFrom
    cases hd : declaredLayer? current environment with
    | none =>
      rw [hd] at hfirst
      subst hfirst
      exact ih hrest
    | some layer =>
      rw [hd] at hfirst
      subst hfirst
      exact ih hrest

theorem applyEnvironments_eq_applied {environments : List String} (h : applyEnvironments config environments = .ok current) :
    current = (applied config environments).foldl applyLayer (start config environments) := by
  cases environments with
  | nil =>
    cases h
    rfl
  | cons environment rest =>
    obtain ⟨first, hfirst, hrest⟩ := bind_eq_ok.mp
      (h : withSnapshot config >>= (fun first => (environment :: rest).foldlM applyEnvironment first) = .ok current)
    obtain rfl := withSnapshot_eq_ok hfirst
    exact foldlM_applyEnvironment hrest

theorem wellKeyed_appliedFrom {environments : List String} (hw : (Value.mapping current).WellKeyed) :
    ∀ layer ∈ appliedFrom current environments, (Value.mapping layer).WellKeyed := by
  induction environments generalizing current with
  | nil => exact nofun
  | cons environment rest ih =>
    unfold appliedFrom
    cases hd : declaredLayer? current environment with
    | none => exact ih hw
    | some layer =>
      have hlayer := wellKeyed_declaredLayer hw hd
      exact List.forall_mem_cons.mpr ⟨hlayer, ih (wellKeyed_applyLayer hw hlayer)⟩

theorem wellKeyed_start (hw : (Value.mapping config).WellKeyed) (environments : List String) :
    (Value.mapping (start config environments)).WellKeyed := by
  unfold start
  split
  · exact hw
  · exact wellKeyed_snapshotted hw

theorem wellKeyed_foldl_applyLayer {layers : List Mapping} (hw : (Value.mapping current).WellKeyed)
    (hl : ∀ layer ∈ layers, (Value.mapping layer).WellKeyed) :
    (Value.mapping (layers.foldl applyLayer current)).WellKeyed := by
  induction layers generalizing current with
  | nil => exact hw
  | cons layer rest ih =>
    obtain ⟨hlayer, hrest⟩ := List.forall_mem_cons.mp hl
    exact ih (wellKeyed_applyLayer hw hlayer) hrest

theorem wellKeyed_applyEnvironments {environments : List String} (hw : (Value.mapping config).WellKeyed)
    (h : applyEnvironments config environments = .ok current) : (Value.mapping current).WellKeyed := by
  obtain rfl := applyEnvironments_eq_applied h
  have hstart := wellKeyed_start hw environments
  exact wellKeyed_foldl_applyLayer hstart (wellKeyed_appliedFrom hstart)

theorem appliedFrom_eq {environments : List String}
    (hsame : Entries.get? current "overrides" = Entries.get? config "overrides")
    (hl : ∀ layer ∈ environments.filterMap (declaredLayer? config), Entries.get? layer "overrides" = none) :
    appliedFrom current environments = environments.filterMap (declaredLayer? config) := by
  induction environments generalizing current with
  | nil => rfl
  | cons environment rest ih =>
    unfold appliedFrom
    rw [declaredLayer?_congr hsame]
    rw [List.filterMap_cons] at hl ⊢
    cases hd : declaredLayer? config environment with
    | none =>
      rw [hd] at hl
      exact ih hsame hl
    | some layer =>
      rw [hd] at hl
      have hlayer : Entries.get? (applyLayer current layer) "overrides" = Entries.get? current "overrides" :=
        overrides_applyLayer (hl layer List.mem_cons_self)
      exact congrArg (layer :: ·) (ih (hlayer.trans hsame) fun l hm => hl l (List.mem_cons_of_mem _ hm))

theorem filterMap_snapshotted (config : Mapping) (environments : List String) :
    environments.filterMap (declaredLayer? (snapshotted config)) = layers config environments := by
  unfold layers
  congr 1
  funext name
  exact declaredLayer?_snapshotted config name

/-- If no layer writes to `overrides`, the layers that are merged are known before. -/
theorem applied_eq_layers {environments : List String}
    (hl : ∀ layer ∈ layers config environments, Entries.get? layer "overrides" = none) :
    applied config environments = layers config environments := by
  cases environments with
  | nil => rfl
  | cons environment rest =>
    rw [← filterMap_snapshotted] at hl ⊢
    exact appliedFrom_eq rfl hl

/-- If no layer writes to `overrides`, the environments are merged in the order of the known layers. -/
theorem applyEnvironments_eq_overlaid {environments : List String}
    (hl : ∀ layer ∈ layers config environments, Entries.get? layer "overrides" = none)
    (h : applyEnvironments config environments = .ok current) :
    current = overlaid config environments := by
  rw [applyEnvironments_eq_applied h, applied_eq_layers hl]
  rfl

theorem get?_apply {environments : List String} {last final : Mapping} {key : String}
    (hl : ∀ layer ∈ layers config environments, Entries.get? layer "overrides" = none)
    (h : apply config environments last = .ok final) (hne : key ≠ "server") :
    Entries.get? final key = Entries.get? (Mapping.merge .cascade (overlaid config environments) last) key := by
  obtain ⟨current, followed, hcurrent, hfollowed, hstopped⟩ := apply_eq_ok h
  obtain rfl := applyEnvironments_eq_overlaid hl hcurrent
  exact (get?_stopServer hstopped hne).trans (get?_followPublicPath hfollowed hne)

/-! ### Environments that can be applied -/

/-- An environment that is declared by no value other than a mapping or null. -/
def Declarable (config : Mapping) (environment : String) : Prop :=
  ∀ v, (Entries.get? config "overrides").bind (·.get? environment) = some v → v.isNull = true ∨ v.isMapping = true

theorem layer?_of_declarable (h : Declarable config environment) :
    layer? config environment = .ok (declaredLayer? config environment) := by
  unfold layer? declaredLayer?
  cases hv : (Entries.get? config "overrides").bind (·.get? environment) with
  | none => rfl
  | some v =>
    cases v with
    | null => rfl
    | mapping layer => rfl
    | _ => rcases h _ hv with h | h <;> cases h

theorem foldlM_applyEnvironment_of_declarable {environments : List String}
    (h : ∀ environment ∈ environments, Declarable config environment)
    (hsame : Entries.get? current "overrides" = Entries.get? config "overrides")
    (hl : ∀ layer ∈ environments.filterMap (declaredLayer? config), Entries.get? layer "overrides" = none) :
    environments.foldlM applyEnvironment current =
      .ok ((environments.filterMap (declaredLayer? config)).foldl applyLayer current) := by
  induction environments generalizing current with
  | nil => rfl
  | cons environment rest ih =>
    have hdeclarable : Declarable current environment := by
      unfold Declarable
      rw [hsame]
      exact h environment List.mem_cons_self
    rw [List.foldlM_cons]
    unfold applyEnvironment
    rw [layer?_of_declarable hdeclarable, declaredLayer?_congr hsame]
    rw [List.filterMap_cons] at hl ⊢
    have hrest : ∀ environment ∈ rest, Declarable config environment := fun e he => h e (List.mem_cons_of_mem _ he)
    cases hd : declaredLayer? config environment with
    | none =>
      rw [hd] at hl
      exact ih hrest hsame hl
    | some layer =>
      rw [hd] at hl
      have hlayer : Entries.get? (applyLayer current layer) "overrides" = Entries.get? current "overrides" :=
        overrides_applyLayer (hl layer List.mem_cons_self)
      exact ih hrest (hlayer.trans hsame) fun l hm => hl l (List.mem_cons_of_mem _ hm)

theorem snapshotted_eq {overrides : Mapping} (h : Entries.get? config "overrides" = some (.mapping overrides)) :
    snapshotted config = Entries.insert config "overrides"
      (.mapping (Entries.insert overrides snapshotName (.mapping (snapshot config)))) := by
  unfold snapshotted
  rw [if_pos (hasValue_iff.mpr ⟨_, h, rfl⟩), modifyChild, child_of_get? h]

theorem withSnapshot_eq {overrides : Mapping} (h : Entries.get? config "overrides" = some (.mapping overrides)) :
    withSnapshot config = .ok (snapshotted config) := by
  unfold withSnapshot
  rw [if_pos (hasValue_iff.mpr ⟨_, h, rfl⟩), snapshotted_eq h]
  exact editSection_of_get? h rfl

/-- A cascade of environments that can be applied is the fold of their layers. -/
theorem applyEnvironments_eq {overrides : Mapping} {environments : List String}
    (hover : Entries.get? config "overrides" = some (.mapping overrides))
    (h : ∀ environment ∈ environments, environment ≠ snapshotName → Declarable config environment)
    (hl : ∀ layer ∈ layers config environments, Entries.get? layer "overrides" = none) :
    applyEnvironments config environments = .ok (overlaid config environments) := by
  have hdeclarable : ∀ environment ∈ environments, Declarable (snapshotted config) environment := by
    intro environment hmem v hv
    rw [snapshotted_eq hover, Entries.get?_insert_self] at hv
    change Entries.get? (Entries.insert overrides _ _) environment = some v at hv
    by_cases hname : snapshotName = environment
    · subst hname
      rw [Entries.get?_insert_self] at hv
      cases hv
      exact .inr rfl
    · rw [Entries.get?_insert_of_ne hname] at hv
      refine h environment hmem (Ne.symm hname) v ?_
      rw [hover]
      exact hv
  cases environments with
  | nil => rfl
  | cons environment rest =>
    show (withSnapshot config >>= fun first => (environment :: rest).foldlM applyEnvironment first) = _
    rw [withSnapshot_eq hover]
    rw [← filterMap_snapshotted] at hl
    refine (foldlM_applyEnvironment_of_declarable hdeclarable rfl hl).trans ?_
    rw [filterMap_snapshotted]
    rfl

/-! ### The last word -/

/-- The last word of a base and what comes after it. -/
theorem getLast?_filterMap_cons {α β : Type} (word : α → Option β) (a : α) (as : List α) :
    ((a :: as).filterMap word).getLast? = ((as.filterMap word).getLast?).or (word a) := by
  rw [List.filterMap_cons]
  cases word a with
  | none => rw [Option.or_none]
  | some b =>
    rw [List.getLast?_cons]
    cases (as.filterMap word).getLast? <;> rfl

/-- If every step lets what it is given speak and keeps what was said before otherwise, then after all steps
    stands the last word. -/
theorem foldl_last_word {σ α β : Type} {step : σ → α → σ} {said : σ → Option β} {word : α → Option β}
    {Inv : σ → Prop} {as : List α} {s : σ}
    (hstep : ∀ a ∈ as, ∀ s, Inv s → Inv (step s a) ∧ said (step s a) = (word a).or (said s)) (hs : Inv s) :
    Inv (as.foldl step s) ∧ said (as.foldl step s) = ((as.filterMap word).getLast?).or (said s) := by
  induction as generalizing s with
  | nil => exact ⟨hs, rfl⟩
  | cons a rest ih =>
    obtain ⟨hs', hsaid⟩ := hstep a List.mem_cons_self s hs
    obtain ⟨hinv, hrest⟩ := ih (fun b hb => hstep b (List.mem_cons_of_mem _ hb)) hs'
    refine ⟨hinv, ?_⟩
    show said (rest.foldl step (step s a)) = _
    rw [hrest, hsaid, ← Option.or_assoc, getLast?_filterMap_cons]

theorem overlaid_last_word {β : Type} {said word : Mapping → Option β} {Inv : Mapping → Prop} {environments : List String}
    (hstep : ∀ layer ∈ layers config environments, ∀ current, Inv current →
      Inv (applyLayer current layer) ∧ said (applyLayer current layer) = (word layer).or (said current))
    (hs : Inv (start config environments)) :
    Inv (overlaid config environments) ∧ said (overlaid config environments) =
      (((layers config environments).filterMap word).getLast?).or (said (start config environments)) :=
  foldl_last_word hstep hs

end AssetPlan.Cascade
