import AssetPlan.Proofs.Cascade.Invocation

/-! # A cascade without layers

Over a configuration with the defaults a cascade of environments that none declares is no more than its end. If
the invocation asks for no server and no output directory, that is the flag of the invocation: defaulting left
the server as the end of the cascade would have it. The snapshot is written if any environment is named. -/

namespace AssetPlan.Cascade
open Mapping Defaults
variable {o : Options} {d : Defaults} {inv : Invocation} {m c config : Mapping} {environments : List String}

/-- Environments that are not declared leave no trace but the snapshot. -/
theorem applyEnvironments_undeclared {overrides : Mapping} (hne : environments ≠ [])
    (hover : Entries.get? config "overrides" = some (.mapping overrides))
    (hname : snapshotName ∉ environments)
    (hundeclared : ∀ environment ∈ environments, ∀ v, config.find? ["overrides", environment] = some v → v = .null) :
    applyEnvironments config environments = .ok (snapshotted config) := by
  have hnull : ∀ environment ∈ environments, ∀ v, (Entries.get? config "overrides").bind (·.get? environment) = some v →
      v = .null := by
    intro environment hmem v hv
    refine hundeclared environment hmem v ?_
    rw [hover] at hv
    rw [find?_of_get? hover]
    exact hv
  have hnone : layers config environments = [] := by
    refine List.filterMap_eq_nil_iff.mpr fun environment hmem => ?_
    have hother : ¬ (config.hasValue "overrides" = true ∧ environment = snapshotName) := fun h => hname (h.2 ▸ hmem)
    unfold layerOf? declaredLayer?
    rw [if_neg hother]
    cases hv : (Entries.get? config "overrides").bind (·.get? environment) with
    | none => rfl
    | some v =>
      rw [hnull environment hmem v hv]
      rfl
  rw [applyEnvironments_eq hover (fun environment hmem _ v hv => .inl (hnull environment hmem v hv ▸ rfl)) (by simp [hnone])]
  unfold overlaid start
  rw [hnone, if_neg (by simpa using hne)]
  rfl

/-- Over a server that is as the invocation has it the cascade ends with the flag of the invocation. -/
theorem conclude_flag {text : String} (hserver : o.server = false) (hpath : o.publicPath = none)
    (hpublic : config.find? ["paths", "public"] = some (.string text))
    (hserved : config.find? ["server", "publicPath"] = some (.string text))
    (hrun : o.persistent = false → config.find? ["server", "run"] = some (.bool false)) :
    conclude config o.layer = .ok (Entries.insert config "persistent" (.bool o.persistent)) := by
  have hmerge : Mapping.merge .cascade config o.layer = Entries.insert config "persistent" (.bool o.persistent) := by
    unfold Options.layer Options.publicLayer Options.serverLayer
    rw [merge_cascade_eq, hserver, hpath]
    exact Value.mergeEntries_leaf rfl
  have hother : ∀ q, KeyPath.Apart ["persistent"] q →
      (Mapping.merge .cascade config o.layer).find? q = config.find? q := by
    intro q hq
    rw [hmerge]
    exact find?_insert_of_apart hq config _
  unfold conclude
  rw [followPublicPath_self ((hother _ (by decide)).trans hpublic) ((hother _ (by decide)).trans hserved)]
  show stopServer _ = _
  rw [stopServer_self, hmerge]
  intro hp
  exact (hother _ (by decide)).trans (hrun ((isPersistent_merge o config).symm.trans hp))

/-- Over a configuration with the defaults a cascade without layers sets the flag of the invocation, and the
    snapshot if any environment is named. -/
theorem apply_defaulted (h : d.apply inv m = .ok c) (hpersistent : o.persistent = inv.persistent)
    (hserver : o.server = false) (hpath : o.publicPath = none) :
    apply c [] o.layer = .ok (Entries.insert c "persistent" (.bool inv.persistent)) ∧
      ∀ environments : List String, environments ≠ [] → snapshotName ∉ environments →
        (∀ environment ∈ environments, ∀ v, c.find? ["overrides", environment] = some v → v = .null) →
        apply c environments o.layer = .ok
          (modifyChild (Entries.insert c "persistent" (.bool inv.persistent)) "overrides" fun overrides =>
            Entries.insert overrides snapshotName (.mapping (snapshot c))) := by
  have hfilled := filled_of_apply h
  obtain ⟨text, hpublic⟩ := hfilled.find?_public
  have hserved := hfilled.find?_served hpublic
  have hrun : o.persistent = false → c.find? ["server", "run"] = some (.bool false) :=
    fun hp => hfilled.find?_run (hpersistent.symm.trans hp)
  obtain ⟨overrides, hover⟩ := hfilled.get?_section "overrides" (by simp [steps, environmentSteps])
  rw [← hpersistent]
  refine ⟨conclude_flag hserver hpath hpublic hserved hrun, fun environments hne hname hundeclared => ?_⟩
  have hother : ∀ q, KeyPath.Apart ["overrides"] q → (snapshotted c).find? q = c.find? q := by
    intro q hq
    rw [snapshotted_eq hover]
    exact find?_insert_of_apart hq c _
  rw [apply_eq_conclude, applyEnvironments_undeclared hne hover hname hundeclared]
  show conclude _ _ = _
  rw [conclude_flag hserver hpath ((hother _ (by decide)).trans hpublic) ((hother _ (by decide)).trans hserved)
    fun hp => (hother _ (by decide)).trans (hrun hp)]
  rw [snapshotted_eq hover, Entries.insert_comm hover (by decide), modifyChild,
    child_of_get? ((Entries.get?_insert_of_ne (by decide) c _).trans hover)]

/-- A project with a server of its own will and an environment that is declared by nothing. -/
def wilfulServer : Mapping := [
  ("server", .mapping [("run", .bool true), ("publicPath", .string "elsewhere")]),
  ("overrides", .mapping [("ci", .null)])]

theorem apply_defaulted_wilfulServer : ∃ c, Defaults.apply {} {} wilfulServer = .ok c ∧
    apply c [] ({ port := some 4000 } : Options).layer = .ok (Entries.insert c "persistent" (.bool false)) ∧
    apply c ["ci", "staging"] ({ port := some 4000 } : Options).layer = .ok
      (modifyChild (Entries.insert c "persistent" (.bool false)) "overrides" fun overrides =>
        Entries.insert overrides snapshotName (.mapping (snapshot c))) := by
  have hok : (Defaults.apply {} {} wilfulServer).isOk = true := by decide +kernel
  obtain ⟨c, h⟩ := exists_ok_of_isOk hok
  obtain ⟨hnone, hundeclared⟩ := apply_defaulted (o := { port := some 4000 }) h rfl rfl rfl
  refine ⟨c, h, hnone, hundeclared ["ci", "staging"] (by decide) (by decide) fun environment hmem v hv => ?_⟩
  have hnames : environment = "ci" ∨ environment = "staging" := by simpa using hmem
  rcases hnames with rfl | rfl
  · rw [find?_apply_of_misses h (by decide +kernel)] at hv
    cases hv
    rfl
  · rw [find?_apply_of_misses h (by decide +kernel)] at hv
    cases hv

end AssetPlan.Cascade
