import AssetPlan.Proofs.Resolution.Rejection

/-! # The hook of a legacy configuration

A legacy `onCompile` is moved among the hooks if none of that name is set there, and nothing else of the tree changes.
No later phase touches the hook unless an environment does, so a finished configuration has the hook that is set, or
else the legacy one. -/

namespace AssetPlan.Resolution
open Mapping Defaults Step
variable {d : Defaults} {o : Options} {config : Mapping} {resolution : Resolution}

theorem misses_hook : ∀ loaded persistent, ∀ s ∈ outlines loaded persistent, Misses ["hooks", "onCompile"] s := by
  decide +kernel

/-- Without environments the hook of a finished configuration is that of the migrated tree, which accepted hooks. -/
theorem hook_of_ofTree (he : o.environments = []) (h : ofTree d o (.mapping config) = .ok resolution) :
    Legacy.acceptsHooks config = true ∧
      Entries.get? resolution.configuration.hooks "onCompile" = (Legacy.migrate config).find? ["hooks", "onCompile"] := by
  obtain ⟨_, c, final, hconfig, -, hfill, hcascade, hread⟩ := ofTree_eq_ok h
  cases hconfig
  obtain ⟨-, -, hread⟩ := Configuration.ofTree_eq_ok hread
  obtain ⟨final', hrun, happly, -⟩ := exists_closed rfl he (filled_of_apply hfill)
  obtain rfl : final' = final := Except.ok.inj (happly.symm.trans hcascade)
  refine ⟨acceptsHooks_of_apply hfill, ?_⟩
  calc Entries.get? resolution.configuration.hooks "onCompile"
    _ = final'.find? ["hooks", "onCompile"] := (find?_of_get? (required_eq_ok hread.hooks) _).symm
    _ = c.find? ["hooks", "onCompile"] := Cascade.find?_of_closing hrun (by decide)
    _ = (Legacy.migrate config).find? ["hooks", "onCompile"] := find?_apply_of_misses hfill (misses_hook _ _)

/-- Looking for legacy fields moves the hook if it is to be moved and touches nothing else. All that is reported are
    deprecations, and looking again changes nothing and reports the same. So without environments a finished configuration
    has the hook that is set among the hooks, and else the legacy one. -/
theorem check_moves_hook (config : Mapping) : ∃ t, (Legacy.check config).result = .ok t ∧ Legacy.Migrated config t ∧
    (∀ diagnostic ∈ (Legacy.check config).diagnostics, ∃ legacy, diagnostic = .deprecation legacy) ∧
    Legacy.check t = Legacy.check config ∧
    ∀ d o resolution, o.environments = [] → ofTree d o (.mapping config) = .ok resolution →
      ∀ hook, hook.isNull = false →
        (config.find? ["hooks", "onCompile"] = some hook →
          Entries.get? resolution.configuration.hooks "onCompile" = some hook) ∧
        ((∀ v, config.find? ["hooks", "onCompile"] = some v → v.isNull = true) → config.find? ["onCompile"] = some hook →
          Entries.get? resolution.configuration.hooks "onCompile" = some hook) := by
  refine ⟨Legacy.migrate config, rfl, Legacy.migrated_migrate config, ?reports, Legacy.check_migrate config, ?hook⟩
  case reports =>
    intro diagnostic hmem
    obtain ⟨legacy, -, rfl⟩ := List.mem_map.mp hmem
    exact ⟨legacy, rfl⟩
  case hook =>
    intro d o resolution he h hook hset
    obtain ⟨haccepts, hhook⟩ := hook_of_ofTree he h
    constructor
    · intro hown
      have hunmoved : Legacy.migrate config = config := Legacy.migrate_of_not_moves fun moved hmoves => by
        rw [hmoves.unset hook hown] at hset
        cases hset
      rw [hhook, hunmoved, hown]
    · intro hunset hlegacy
      rw [hhook]
      exact Legacy.find?_migrate_of_moves ⟨hlegacy, hset, Legacy.acceptsHooks_iff.mp haccepts, hunset⟩

/-- A command that is run after every build. -/
def notifyHook : Value := .mapping [("command", .string "notify")]

/-- A project with a legacy hook, and null in place of its hooks. -/
def notifyingProject : Mapping := [
  ("hooks", .null),
  ("onCompile", notifyHook),
  ("files", .mapping [("javascripts", .mapping [("joinTo", .string "app.js")])])]

theorem check_moves_hook_notifyingProject : Legacy.Moves notifyingProject notifyHook ∧
    ∃ t resolution, (Legacy.check notifyingProject).result = .ok t ∧ t.find? ["hooks", "onCompile"] = some notifyHook ∧
      Entries.keys t = ["hooks", "onCompile", "files"] ∧ Legacy.check t = Legacy.check notifyingProject ∧
      ofTree {} {} (.mapping notifyingProject) = .ok resolution ∧
      Entries.get? resolution.configuration.hooks "onCompile" = some notifyHook := by
  have hmoves : Legacy.Moves notifyingProject notifyHook := by
    refine ⟨rfl, rfl, fun v hv => ?_, nofun⟩
    cases hv
    exact .inl rfl
  have hok : (ofTree {} {} (.mapping notifyingProject)).isOk = true := by decide +kernel
  obtain ⟨resolution, h⟩ := exists_ok_of_isOk hok
  obtain ⟨t, hresult, hmigrated, -, hagain, hresolved⟩ := check_moves_hook notifyingProject
  obtain ⟨-, hlegacy⟩ := hresolved {} {} resolution rfl h notifyHook rfl
  refine ⟨hmoves, t, resolution, hresult, hmigrated.moved _ hmoves, ?_, hagain, h, hlegacy hmoves.unset rfl⟩
  cases hresult
  decide +kernel

end AssetPlan.Resolution
