import AssetPlan.Proofs.Cascade.Invocation
import AssetPlan.Proofs.Cascade.Production
import AssetPlan.Proofs.Legacy
import AssetPlan.Proofs.Resolution
import AssetPlan.Proofs.Routing.FirstDeclared

/-! # The defaults are complete

A project that sets nothing but its routing resolves under every invocation. Defaulting makes all other sections,
the environments turn no more of them than a production build does, and the end of the cascade writes values of
the right shape. So every part of the configuration can be read. -/

namespace AssetPlan.Resolution
open Mapping Defaults
variable {o : Options} {inv : Invocation} {config c current final files hooks : Mapping} {production : Bool}

/-! ### The end of a cascade over what defaulting made -/

/-- A tree after the end of a cascade over fresh sections. -/
structure Finished (o : Options) (inv : Invocation) (hooks : Mapping) (production : Bool) (c final : Mapping) : Prop where
  stage : Stage (some (.mapping hooks)) (fresh inv) c
  turned : ∃ current, Cascade.Turned c production current ∧ Step.run current o.closingSteps = (final, none)
  persistent : Entries.get? final "persistent" = some (.bool o.persistent)

namespace Finished

/-- The sections and flags that no later phase changes. -/
def lastingKeys : List String :=
  ["files", "conventions", "modules", "npm", "hooks", "watcher", "fileListInterval", "notifications"]

theorem get?_lasting (h : Finished o inv hooks production c final) {key : String} (hkey : key ∈ lastingKeys) :
    Entries.get? final key = Entries.get? c key := by
  obtain ⟨current, hturned, hrun⟩ := h.turned
  obtain ⟨hunturned, hne, hmisses⟩ := (by decide : ∀ key ∈ lastingKeys, key ∉ Cascade.turnedKeys ∧ key ≠ "overrides" ∧
    ∀ target ∈ Options.closingTargets, Step.Misses [key] (.writes, target)) key hkey
  exact (get?_congr (Cascade.find?_of_closing hrun hmisses)).trans (hturned.rest key hunturned hne)

/-- What defaulting made and no later phase changes. -/
theorem get?_made (h : Finished o inv hooks production c final) {key : String} {v : Value} (hkey : key ∈ lastingKeys)
    (hv : Entries.get? (fresh inv) key = some v) : Entries.get? final key = some v :=
  (h.get?_lasting hkey).trans (h.stage.get?_of_made hv)

theorem exists_paths (h : Finished o inv hooks production c final) :
    ∃ paths fields, final.required "paths" = .ok fields ∧ Paths.ofFields fields = .ok paths := by
  obtain ⟨current, hturned, hrun⟩ := h.turned
  have hpaths : Entries.get? current "paths" = some (.mapping (freshPaths inv)) :=
    hturned.get?_fresh h.stage (by decide) (by decide) rfl
  -- The end of the cascade may move the public path, and to no other place than a text.
  obtain ⟨_, hpublic, text, rfl⟩ :=
    Cascade.suits_of_closing hrun (by decide) ⟨_, find?_of_get? hpaths "public", "public", rfl⟩
  obtain ⟨fields, hfields, hpublic⟩ := find?_concat_eq_some (p := ["paths"]).mp hpublic
  rw [find?_singleton] at hfields
  have hfield : ∀ key, (∀ target ∈ Options.closingTargets, Step.Misses ["paths", key] (.writes, target)) →
      Entries.get? fields key = Entries.get? (freshPaths inv) key := by
    intro key hkey
    rw [← find?_of_get? hfields, ← find?_of_get? hpaths]
    exact Cascade.find?_of_closing hrun hkey
  refine ⟨⟨".", text, ["app", "test", "vendor"], inv.configPath.getD "buildconf", "package.json", "bower.json"⟩, fields,
    required_of_get? hfields, ?_⟩
  exact Paths.ofFields_of_get? (hfield "root" (by decide)) hpublic (hfield "watched" (by decide)) rfl
    (hfield "config" (by decide)) (hfield "packageConfig" (by decide)) (hfield "bowerConfig" (by decide))

theorem exists_server (h : Finished o inv hooks production c final) :
    ∃ server fields, final.required "server" = .ok fields ∧ Server.ofFields fields = .ok server := by
  obtain ⟨current, hturned, hrun⟩ := h.turned
  have hserver : Entries.get? current "server" = some (.mapping freshServer) :=
    hturned.get?_fresh h.stage (by decide) (by decide) rfl
  have hfound := find?_of_get? hserver
  obtain ⟨_, hpublic, text, rfl⟩ := Cascade.suits_of_closing hrun (by decide) ⟨_, hfound "publicPath", "public", rfl⟩
  obtain ⟨_, hport, port, rfl⟩ := Cascade.suits_of_closing hrun (by decide) ⟨_, hfound "port", 3333, rfl⟩
  obtain ⟨_, hrunning, run, rfl⟩ := Cascade.suits_of_closing hrun (by decide) ⟨_, hfound "run", false, rfl⟩
  obtain ⟨fields, hfields, hpublic⟩ := find?_concat_eq_some (p := ["server"]).mp hpublic
  rw [find?_singleton] at hfields
  rw [find?_of_get? hfields] at hport hrunning
  have hfield : ∀ key, (∀ target ∈ Options.closingTargets, Step.Misses ["server", key] (.writes, target)) →
      Entries.get? fields key = Entries.get? freshServer key := by
    intro key hkey
    rw [← find?_of_get? hfields, ← hfound]
    exact Cascade.find?_of_closing hrun hkey
  refine ⟨⟨text, "", port, "localhost", run⟩, fields, required_of_get? hfields, ?_⟩
  exact Server.ofFields_of_get? hpublic (hfield "base" (by decide)) hport (hfield "hostname" (by decide)) hrunning

/-- Every part of a configuration can be read. -/
theorem exists_readFrom (h : Finished o inv hooks production c final) (environments : List String) (isProduction : Bool)
    (hfiles : Entries.get? c "files" = some (.mapping files))
    (hrouting : ∀ watched, (Routing.ofFiles files watched).result.isOk = true) :
    ∃ configuration : Configuration, configuration.ReadFrom final ∧ configuration.environments = environments ∧
      configuration.isProduction = isProduction ∧ configuration.optimize = production ∧
      configuration.sourceMaps = !production := by
  obtain ⟨paths, hpaths⟩ := h.exists_paths
  obtain ⟨server, hserver⟩ := h.exists_server
  obtain ⟨routing, hroutingOk⟩ := exists_ok_of_isOk (hrouting paths.watched)
  obtain ⟨conventions, hconventions⟩ :=
    exists_ok_of_isOk (by decide +kernel : (Conventions.ofFields freshConventions).isOk = true)
  obtain ⟨modules, hmodules⟩ := exists_ok_of_isOk (by decide +kernel : (Modules.ofFields freshModules).isOk = true)
  obtain ⟨current, hturned, hrun⟩ := h.turned
  -- The end of the cascade writes only at its targets: to all else the environments have the last word.
  have hclosed : ∀ key, (∀ target ∈ Options.closingTargets, Step.Misses [key] (.writes, target)) →
      Entries.get? final key = Entries.get? current key := fun key hkey => get?_congr (Cascade.find?_of_closing hrun hkey)
  obtain ⟨overrides, hoverrides⟩ := hturned.overrides
  have hplugins : ∃ plugins, Plugins.ofFields (Cascade.turnedPlugins production) = .ok plugins := by
    cases production <;> exact ⟨_, rfl⟩
  obtain ⟨plugins, hplugins⟩ := hplugins
  have hinterval : Configuration.intervalOf final = .ok 65 := by
    unfold Configuration.intervalOf
    rw [h.get?_made (by decide : "fileListInterval" ∈ lastingKeys) rfl]
    rfl
  refine ⟨{
    environments, isProduction, persistent := o.persistent, optimize := production, sourceMaps := !production
    notifications := true, fileListInterval := 65, usePolling := false, paths, conventions, modules, routing, plugins
    server, hooks, npm := ⟨true, []⟩, overrides, tree := final }, ?_, rfl, rfl, rfl, rfl⟩
  exact {
    paths := hpaths
    routing := ⟨files, required_of_get? ((h.get?_lasting (by decide)).trans hfiles), hroutingOk⟩
    conventions := ⟨_, required_of_get? (h.get?_made (by decide) rfl), hconventions⟩
    modules := ⟨_, required_of_get? (h.get?_made (by decide) rfl), hmodules⟩
    plugins := ⟨_, required_of_get? ((hclosed "plugins" (by decide)).trans hturned.plugins), hplugins⟩
    server := hserver
    npm := ⟨_, required_of_get? (h.get?_made (by decide) rfl), rfl⟩
    hooks := required_of_get? ((h.get?_lasting (by decide)).trans h.stage.hooks)
    overrides := required_of_get? ((hclosed "overrides" (by decide)).trans hoverrides)
    fileListInterval := hinterval
    usePolling := ⟨_, required_of_get? (h.get?_made (by decide) rfl), rfl⟩
    persistent := flag?_of_get? h.persistent _ _
    optimize := flag?_of_get? ((hclosed "optimize" (by decide)).trans hturned.optimize) _ _
    sourceMaps := flag?_of_get? ((hclosed "sourceMaps" (by decide)).trans hturned.sourceMaps) _ _
    notifications := flag?_of_get? (h.get?_made (by decide) rfl) _ _
    tree := rfl }

end Finished

/-! ### Every invocation -/

theorem misses_files : ∀ loaded persistent, ∀ s ∈ outlines loaded persistent, Step.Misses ["files"] s := by decide +kernel

/-- What a project may leave to the defaults. -/
def defaultedKeys : List String :=
  ["paths", "conventions", "modules", "plugins", "server", "npm", "hooks", "overrides", "watcher", "fileListInterval",
    "optimize", "sourceMaps", "notifications"]

/-- The phases before the reading succeed. -/
theorem exists_finished (hw : (Value.mapping config).WellKeyed) (hunset : ∀ key ∈ defaultedKeys, config.hasValue key = false)
    (o : Options) : ∃ c final hooks, Defaults.apply {} ⟨o.configPath, o.persistent⟩ (Legacy.migrate config) = .ok c ∧
      Cascade.apply c o.environments o.layer = .ok final ∧
      Finished o ⟨o.configPath, o.persistent⟩ hooks (o.environments.contains productionName) c final := by
  -- Migrating touches the hooks only, so what was unset stays unset.
  have hfresh : ∀ key ∈ freshKeys, (Legacy.migrate config).hasValue key = false := by
    intro key hkey
    obtain ⟨hdefaulted, hapart⟩ :=
      (by decide : ∀ key ∈ freshKeys, key ∈ defaultedKeys ∧ KeyPath.Apart ["hooks"] [key]) key hkey
    rw [← hunset key hdefaulted]
    exact hasValue_congr (get?_congr (Legacy.find?_migrate hapart))
  have hhooks : ∀ v, Entries.get? config "hooks" = some v → v.isNull = true ∨ v.isMapping = true := by
    intro v hv
    refine .inl (eq_true_of_ne_false fun hset => ?_)
    exact Bool.eq_false_iff.mp (hunset "hooks" (by decide)) (hasValue_iff.mpr ⟨v, hv, hset⟩)
  obtain ⟨c, hooks, hfill, hstage⟩ :=
    exists_fresh ⟨o.configPath, o.persistent⟩ hfresh fun v hv => Legacy.shape_of_migrate hhooks hv
  have hwc := wellKeyed_of_apply (Legacy.wellKeyed_migrate hw) hfill
  -- The only layers are that of production builds and the snapshot of the sections.
  obtain ⟨current, hcurrent, hturned⟩ := Cascade.applyEnvironments_fresh hwc hstage o.environments
  have hpaths : Entries.get? current "paths" = some (.mapping (freshPaths ⟨o.configPath, o.persistent⟩)) :=
    hturned.get?_fresh hstage (by decide) (by decide) rfl
  have hpublic : current.find? ["paths", "public"] = some (.string "public") := find?_of_get? hpaths "public"
  have hserver : Entries.get? current "server" = some (.mapping freshServer) :=
    hturned.get?_fresh hstage (by decide) (by decide) rfl
  obtain ⟨final, hrun, hconclude⟩ := Cascade.run_closingSteps (o := o) hpublic hserver
  have hcascade : Cascade.apply c o.environments o.layer = .ok final := by
    rw [Cascade.apply_eq_conclude, hcurrent]
    exact hconclude
  exact ⟨c, final, hooks, hfill, hcascade, hstage, ⟨current, hturned, hrun⟩, Cascade.get?_apply_persistent hcascade⟩

/-- A project that sets nothing but its routing resolves under every invocation. It is optimized, and has no source
    maps, just if an environment is for production. -/
theorem ofTree_complete (hw : (Value.mapping config).WellKeyed)
    (hfiles : Entries.get? config "files" = some (.mapping files)) (watched : List String)
    (hrouting : (Routing.ofFiles files watched).result.isOk = true)
    (hunset : ∀ key ∈ defaultedKeys, config.hasValue key = false) (o : Options) :
    ∃ resolution, ofTree {} o (.mapping config) = .ok resolution ∧
      (resolution.configuration.optimize = true ↔ productionName ∈ o.environments) ∧
      (resolution.configuration.sourceMaps = false ↔ productionName ∈ o.environments) := by
  obtain ⟨c, final, hooks, hfill, hcascade, hfinished⟩ := exists_finished hw hunset o
  have hfilesKept : Entries.get? c "files" = some (.mapping files) := by
    rw [get?_congr (find?_apply_of_misses hfill (misses_files _ _)), get?_congr (Legacy.find?_migrate (by decide))]
    exact hfiles
  obtain ⟨configuration, hread, henvironments, hproduction, hoptimize, hsourceMaps⟩ :=
    hfinished.exists_readFrom o.environments o.isProduction hfilesKept fun watched' => by
      rw [Routing.result_ofFiles files watched' watched]
      exact hrouting
  have hresult : (configurationOf {} o config).result = .ok configuration := by
    refine Reported.result_bind_eq_ok.mpr ⟨final, ?_, ?_⟩
    · rw [merged_eq hfill hcascade]
    · rw [← henvironments, ← hproduction]
      exact hread.result_ofTree
  refine ⟨⟨configuration, (configurationOf {} o config).diagnostics, none⟩, ?_, ?_, ?_⟩
  · unfold ofTree
    dsimp only
    rw [if_pos (hasValue_iff.mpr ⟨_, hfiles, rfl⟩), hresult]
    rfl
  · rw [hoptimize, List.contains_iff_mem]
  · rw [hsourceMaps, Bool.not_eq_false', List.contains_iff_mem]

/-- A project that leaves all but its routing and its hook to the defaults, partly by null. -/
def bareProject : Mapping := [
  ("onCompile", .string "notify"),
  ("persistent", .string "never"),
  ("paths", .null),
  ("files", .mapping [("javascripts", .mapping [("joinTo", .string "app.js"), ("entryPoints", .mapping [])])]),
  ("hooks", .null)]

/-- A production build of it that applies the snapshot of its sections first. -/
def snapshotBuild : Options := { named := ["_default"], processEnv := some "production" }

theorem ofTree_complete_bareProject : ∃ resolution, ofTree {} snapshotBuild (.mapping bareProject) = .ok resolution ∧
    resolution.configuration.optimize = true ∧ resolution.configuration.sourceMaps = false := by
  have hw : (Value.mapping bareProject).WellKeyed := by decide +kernel
  obtain ⟨resolution, h, hoptimize, hsourceMaps⟩ :=
    ofTree_complete hw rfl [] (by decide +kernel) (by decide +kernel) snapshotBuild
  have hproduction : productionName ∈ snapshotBuild.environments := by decide +kernel
  exact ⟨resolution, h, hoptimize.mpr hproduction, hsourceMaps.mpr hproduction⟩

end AssetPlan.Resolution
