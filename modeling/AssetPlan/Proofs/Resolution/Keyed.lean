import AssetPlan.Proofs.ConfigError
import AssetPlan.Resolution

/-! # Errors about content

A load error says that there was nothing to read. Every other stage fails over something in the tree: the tree as a
whole, or a setting, and then the error names its key. So the error of a resolution of a tree is never a load error,
whatever the tree, the options and the defaults. -/

namespace AssetPlan
variable {α β : Type} {m : Mapping} {setting : String}

/-- The computation fails, if at all, with an error that names a key. -/
def Keyed (x : Except ConfigError α) : Prop := ∀ e, x = .error e → e.key?.isSome = true

theorem ConfigError.isLoadError_of_key? {e : ConfigError} (h : e.key?.isSome = true) : e.isLoadError = false := by
  cases e with
  | unreadable path reason | unparsable path reason | notFound tried => cases h
  | _ => rfl

/-! ### Parts of a computation -/

namespace Keyed

@[simp] theorem ok (a : α) : Keyed (.ok a) := nofun

@[simp] theorem structural (key : List String) (fault : Fault) :
    Keyed (.error (.structural key fault) : Except ConfigError α) := by
  rintro e ⟨⟩
  rfl

@[simp] theorem pattern (key : List String) (invalid : InvalidRegex) :
    Keyed (.error (.pattern key invalid) : Except ConfigError α) := by
  rintro e ⟨⟩
  rfl

theorem bind {x : Except ConfigError α} {f : α → Except ConfigError β} (hx : Keyed x) (hf : ∀ a, Keyed (f a)) :
    Keyed (x >>= f) := by
  intro e h
  rcases bind_eq_error.mp h with h | ⟨a, -, h⟩
  · exact hx e h
  · exact hf a e h

theorem map {x : Except ConfigError α} {f : α → β} (hx : Keyed x) : Keyed (x.map f) :=
  fun e h => hx e (map_eq_error.mp h)

theorem mapM {f : α → Except ConfigError β} (hf : ∀ x, Keyed (f x)) (xs : List α) : Keyed (xs.mapM f) := by
  intro e h
  obtain ⟨x, -, h⟩ := exists_of_mapM_eq_error h
  exact hf x e h

theorem foldlM {f : β → α → Except ConfigError β} (hf : ∀ s x, Keyed (f s x)) (xs : List α) (s : β) :
    Keyed (xs.foldlM f s) := by
  intro e h
  obtain ⟨x, -, s, h⟩ := exists_of_foldlM_eq_error h
  exact hf s x e h

theorem result_bind {x : Reported α} {f : α → Reported β} (hx : Keyed x.result) (hf : ∀ a, Keyed (f a).result) :
    Keyed (x >>= f).result := by
  rw [Reported.result_bind]
  exact hx.bind hf

theorem result_foldlM {f : β → α → Reported β} (hf : ∀ s x, Keyed (f s x).result) (xs : List α) (s : β) :
    Keyed (xs.foldlM f s).result := by
  intro e h
  obtain ⟨x, -, s, h⟩ := Reported.exists_of_result_foldlM_eq_error h
  exact hf s x e h

end Keyed

/-! ### Sections, settings and patterns -/

namespace Mapping

theorem keyed_fields? (m : Mapping) (setting : String) : Keyed (m.fields? setting) := by
  unfold fields?
  split <;> simp

theorem keyed_editSection {f : Mapping → Except ConfigError Mapping} (hf : ∀ fields, Keyed (f fields)) :
    Keyed (m.editSection setting f) :=
  (keyed_fields? m setting).bind fun fields => (hf fields).bind fun _ => .ok _

theorem keyed_editAt {f : Mapping → Except ConfigError Mapping} (hf : ∀ fields, Keyed (f fields)) (path : List String)
    (m : Mapping) : Keyed (editAt path f m) := by
  induction path generalizing m with
  | nil => exact hf m
  | cons key path ih => exact keyed_editSection ih

theorem keyed_text? (fields : Mapping) (path : List String) (setting : String) : Keyed (fields.text? path setting) := by
  unfold text?
  split <;> simp

theorem keyed_flag? (fields : Mapping) (path : List String) (setting : String) (standard : Bool) :
    Keyed (fields.flag? path setting standard) := by
  unfold flag?
  split <;> simp

theorem keyed_required (m : Mapping) (setting : String) : Keyed (m.required setting) := by
  unfold required
  split <;> simp

end Mapping

namespace Value

theorem keyed_watched (v : Value) : Keyed v.watched := by
  intro e h
  obtain ⟨fault, rfl, -⟩ := watched_eq_error h
  rfl

theorem keyed_toPattern (key : List String) (v : Value) : Keyed (v.toPattern key) := by
  intro e h
  rw [(rejects_of_toPattern h).1]
  rfl

theorem keyed_ofSource (key : List String) (source : String) : Keyed (ofSource key source) := by
  unfold ofSource
  split <;> simp

end Value

/-! ### Defaulting -/

namespace Step

/-- A value that a step makes fails only over a key. -/
def MakesKeyed : Step → Prop
  | .fill _ _ value | .write _ _ value => ∀ config, Keyed (value config)
  | _ => True

theorem keyed_apply {s : Step} (hs : s.MakesKeyed) (config : Mapping) : Keyed (s.apply config) := by
  cases s with
  | openSection path key => exact Mapping.keyed_editAt (fun _ => Mapping.keyed_editSection .ok) path config
  | fill path key value | write path key value =>
    exact (hs config).bind fun v => Mapping.keyed_editAt (fun _ => .ok _) path config
  | requireText path key =>
    exact Mapping.keyed_editAt (fun fields => (Mapping.keyed_text? fields path key).bind fun _ => .ok _) path config

theorem keyed_run {steps : List Step} (hsteps : ∀ s ∈ steps, s.MakesKeyed) {config config' : Mapping} {e : ConfigError}
    (h : run config steps = (config', some e)) : e.key?.isSome = true := by
  induction steps generalizing config with
  | nil => cases h
  | cons s rest ih =>
    obtain ⟨hs, hrest⟩ := List.forall_mem_cons.mp hsteps
    rw [run] at h
    split at h
    · exact ih hrest h
    · rename_i e' he
      cases h
      exact keyed_apply hs _ e he

end Step

namespace Defaults

theorem keyed_watchedList (config : Mapping) : Keyed (watchedList config) :=
  (Value.keyed_watched _).bind fun _ => .ok _

theorem keyed_ignoredPatterns (config : Mapping) : Keyed (ignoredPatterns config) := by
  unfold ignoredPatterns
  split
  · exact .ok _
  · exact (Keyed.mapM (Value.keyed_ofSource _) _).map

theorem makesKeyed_pathSteps (d : Defaults) (inv : Invocation) : ∀ s ∈ d.pathSteps inv, s.MakesKeyed := by
  unfold pathSteps
  cases inv.configPath <;> simp [Step.MakesKeyed, constant, keyed_watchedList]

theorem makesKeyed_conventionSteps : ∀ s ∈ conventionSteps, s.MakesKeyed := by
  simp [conventionSteps, Step.MakesKeyed, Value.keyed_ofSource, keyed_ignoredPatterns]

theorem makesKeyed_buildSteps (d : Defaults) : ∀ s ∈ d.buildSteps, s.MakesKeyed := by
  simp [buildSteps, Step.MakesKeyed, constant, Value.keyed_ofSource]

theorem makesKeyed_serverSteps (d : Defaults) (inv : Invocation) : ∀ s ∈ d.serverSteps inv, s.MakesKeyed := by
  unfold serverSteps
  cases inv.persistent <;> simp [Step.MakesKeyed, constant]

theorem makesKeyed_environmentSteps : ∀ s ∈ environmentSteps, s.MakesKeyed := by
  simp [environmentSteps, Step.MakesKeyed, constant]

theorem makesKeyed_steps (d : Defaults) (inv : Invocation) : ∀ s ∈ d.steps inv, s.MakesKeyed := by
  unfold steps
  simp only [List.forall_mem_append]
  exact ⟨⟨⟨⟨makesKeyed_pathSteps d inv, makesKeyed_conventionSteps⟩, makesKeyed_buildSteps d⟩,
    makesKeyed_serverSteps d inv⟩, makesKeyed_environmentSteps⟩

theorem keyed_apply (d : Defaults) (inv : Invocation) (config : Mapping) : Keyed (d.apply inv config) := by
  intro e h
  unfold apply at h
  split at h
  · cases h
  · rename_i hfill
    cases h
    exact Step.keyed_run (makesKeyed_steps d inv) hfill

end Defaults

/-! ### The cascade -/

namespace Cascade

theorem keyed_withSnapshot (config : Mapping) : Keyed (withSnapshot config) := by
  unfold withSnapshot
  split
  · exact Mapping.keyed_editSection fun _ => .ok _
  · exact .ok _

theorem keyed_layer? (config : Mapping) (environment : String) : Keyed (layer? config environment) := by
  unfold layer?
  split <;> simp

theorem keyed_applyEnvironment (config : Mapping) (environment : String) : Keyed (applyEnvironment config environment) := by
  refine (keyed_layer? config environment).bind fun layer => ?_
  cases layer <;> exact .ok _

theorem keyed_applyEnvironments (config : Mapping) (environments : List String) :
    Keyed (applyEnvironments config environments) := by
  unfold applyEnvironments
  have hall := Keyed.foldlM keyed_applyEnvironment environments
  split
  · exact hall config
  · exact (keyed_withSnapshot config).bind hall

theorem keyed_followPublicPath (config : Mapping) : Keyed (followPublicPath config) := by
  unfold followPublicPath
  split
  · exact .ok _
  · exact Mapping.keyed_editSection fun _ => .ok _

theorem keyed_stopServer (config : Mapping) : Keyed (stopServer config) := by
  unfold stopServer
  split
  · exact .ok _
  · exact Mapping.keyed_editSection fun _ => .ok _

theorem keyed_apply (config : Mapping) (environments : List String) (last : Mapping) :
    Keyed (apply config environments last) :=
  (keyed_applyEnvironments config environments).bind fun _ => (keyed_followPublicPath _).bind keyed_stopServer

end Cascade

/-! ### Routing -/

namespace Routing

theorem keyed_ofValue (key : List String) (v : Value) : Keyed (Bundles.ofValue key v) := by
  unfold Bundles.ofValue
  split
  · exact .ok _
  · exact .mapM (fun x => (Value.keyed_toPattern _ _).bind fun _ => .ok _) _
  · exact .structural _ _

theorem keyed_addJoins (r : Routing) (type : AssetType) (declared : Mapping) : Keyed (r.addJoins type declared).result := by
  have hbundles : Keyed (joinedBundles type declared) := by
    unfold joinedBundles
    split
    · exact .ok _
    · exact keyed_ofValue _ _
  have hhelpers : ∀ kept, Keyed (helpers type declared kept) := by
    intro kept
    unfold helpers
    split
    · exact .ok _
    · split <;> simp
  exact .result_bind hbundles fun bundles => .result_bind (.ok _) fun _ => .result_bind (hhelpers _) fun _ => .ok _

theorem keyed_addAllJoins (r : Routing) (sections : List (String × Value)) : Keyed (r.addAllJoins sections).result := by
  induction sections generalizing r with
  | nil => exact .ok _
  | cons s rest ih =>
    obtain ⟨name, v⟩ := s
    unfold addAllJoins
    split
    · exact .result_bind (.ok _) fun _ => ih r
    · split
      · exact .result_bind (keyed_addJoins _ _ _) fun r => .result_bind (ih r) fun _ => .ok _
      · exact .structural _ _

theorem keyed_addEntryPoint (watched : List String) (type : AssetType) (r : Routing) (entry : String × Value) :
    Keyed (addEntryPoint watched type r entry).result := by
  unfold addEntryPoint
  split
  · exact .ok _
  · exact .result_bind (.ok _) fun _ => .result_bind (keyed_ofValue _ _) fun _ => .result_bind (.ok _) fun _ => .ok _

theorem keyed_addEntryPoints (watched : List String) (r : Routing) (declared : AssetType × Mapping) :
    Keyed (addEntryPoints watched r declared).result := by
  unfold addEntryPoints
  split
  · exact .ok _
  · split
    · exact .ok _
    · split
      · exact .result_foldlM (keyed_addEntryPoint watched declared.1) _ _
      · exact .structural _ _

theorem keyed_ofFiles (files : Mapping) (watched : List String) : Keyed (ofFiles files watched).result :=
  .result_bind (keyed_addAllJoins _ _) fun _ => .result_foldlM (keyed_addEntryPoints watched) _ _

end Routing

/-! ### The other sections -/

namespace Configuration
open Mapping

theorem keyed_paths (fields : Mapping) : Keyed (Paths.ofFields fields) := by
  have htext := keyed_text? fields ["paths"]
  have hfiles : ∀ f : String → String → String → Paths, Keyed (do
      let config ← fields.text? ["paths"] "config"
      let packageConfig ← fields.text? ["paths"] "packageConfig"
      let bowerConfig ← fields.text? ["paths"] "bowerConfig"
      .ok (f config packageConfig bowerConfig)) :=
    fun f => (htext "config").bind fun _ => (htext "packageConfig").bind fun _ => (htext "bowerConfig").bind fun _ => .ok _
  refine (htext "root").bind fun root => (htext "public").bind fun publicPath => ?_
  -- The match on the watched directories stands in front of the rest of the reading.
  dsimp only
  split
  · exact (Value.keyed_watched _).bind fun watched => hfiles (⟨root, publicPath, watched, ·, ·, ·⟩)
  · exact (Keyed.structural _ _).bind fun watched => hfiles (⟨root, publicPath, watched, ·, ·, ·⟩)

theorem keyed_conventions (fields : Mapping) : Keyed (Conventions.ofFields fields) :=
  (Keyed.mapM (fun _ => (Value.keyed_toPattern _ _).bind fun _ => .ok _) _).bind fun _ => .ok _

theorem keyed_format (fields : Mapping) (setting : String) : Keyed (Modules.format fields setting) := by
  unfold Modules.format
  split
  · unfold ModuleFormat.ofValue
    split <;> simp
  · exact .structural _ _

theorem keyed_cleanerOf (v : Value) : Keyed (Modules.cleanerOf v) := by
  unfold Modules.cleanerOf
  split
  · exact .ok _
  · exact .ok _
  · split <;> simp
  · exact .structural _ _

theorem keyed_autoRequireOf (v : Value) : Keyed (Modules.autoRequireOf v) := by
  unfold Modules.autoRequireOf
  split
  · exact .ok _
  · refine .mapM (fun entry => ?_) _
    unfold Modules.requiredModules
    split <;> simp
  · exact .structural _ _

theorem keyed_modules (fields : Mapping) : Keyed (Modules.ofFields fields) :=
  (keyed_format fields "wrapper").bind fun _ => (keyed_format fields "definition").bind fun _ =>
    (keyed_cleanerOf _).bind fun _ => (keyed_autoRequireOf _).bind fun _ => .ok _

theorem keyed_namesOf (setting : String) (v : Value) : Keyed (Plugins.namesOf setting v) := by
  unfold Plugins.namesOf
  split
  · exact .ok _
  · refine .map ?_
    unfold PluginSelector.ofValue
    split
    · exact .ok _
    · split <;> simp
    · exact .structural _ _

theorem keyed_plugins (fields : Mapping) : Keyed (Plugins.ofFields fields) := by
  refine .foldlM (fun p entry => ?_) fields _
  unfold Plugins.add
  split
  · exact (keyed_namesOf "on" _).map
  · exact (keyed_namesOf "off" _).map
  · exact (keyed_namesOf "only" _).map
  · exact .ok _

theorem keyed_server (fields : Mapping) : Keyed (Server.ofFields fields) := by
  have hport : Keyed (Server.portOf fields) := by
    unfold Server.portOf
    split
    · split <;> simp
    · exact .structural _ _
  have htext : ∀ setting, Keyed (Server.text fields setting) := by
    intro setting
    unfold Server.text
    split <;> simp
  exact hport.bind fun _ => (htext "publicPath").bind fun _ => (htext "base").bind fun _ => (htext "hostname").bind fun _ =>
    (keyed_flag? fields _ _ _).bind fun _ => .ok _

theorem keyed_npm (fields : Mapping) : Keyed (Npm.ofFields fields) := by
  have hstatic : ∀ v, Keyed (Npm.staticOf v) := by
    intro v
    unfold Npm.staticOf
    split
    · exact .ok _
    · split <;> simp
  exact (hstatic _).bind fun _ => (keyed_flag? fields _ _ _).bind fun _ => .ok _

theorem keyed_intervalOf (tree : Mapping) : Keyed (intervalOf tree) := by
  unfold intervalOf
  split
  · exact .ok _
  · split <;> simp

theorem keyed_ofTree (environments : List String) (isProduction : Bool) (tree : Mapping) :
    Keyed (ofTree environments isProduction tree).result := by
  have hrequired := keyed_required tree
  have hflag := keyed_flag? tree []
  exact .result_bind (hrequired "paths") fun _ => .result_bind (keyed_paths _) fun _ =>
    .result_bind (hrequired "files") fun _ => .result_bind (Routing.keyed_ofFiles _ _) fun _ =>
    .result_bind (hrequired "conventions") fun _ => .result_bind (keyed_conventions _) fun _ =>
    .result_bind (hrequired "modules") fun _ => .result_bind (keyed_modules _) fun _ =>
    .result_bind (hrequired "plugins") fun _ => .result_bind (keyed_plugins _) fun _ =>
    .result_bind (hrequired "server") fun _ => .result_bind (keyed_server _) fun _ =>
    .result_bind (hrequired "npm") fun _ => .result_bind (keyed_npm _) fun _ =>
    .result_bind (hrequired "hooks") fun _ => .result_bind (hrequired "overrides") fun _ =>
    .result_bind (keyed_intervalOf tree) fun _ => .result_bind (hrequired "watcher") fun _ =>
    .result_bind (keyed_flag? _ _ _ _) fun _ => .result_bind (hflag "persistent" false) fun _ =>
    .result_bind (hflag "optimize" false) fun _ => .result_bind (hflag "sourceMaps" true) fun _ =>
    .result_bind (hflag "notifications" true) fun _ => .ok _

end Configuration

/-! ### Whole resolutions -/

namespace Resolution

theorem keyed_configurationOf (d : Defaults) (o : Options) (config : Mapping) : Keyed (configurationOf d o config).result :=
  .result_bind (.result_bind (.ok _) fun _ => .result_bind (Defaults.keyed_apply d _ _) fun _ => Cascade.keyed_apply _ _ _)
    fun _ => Configuration.keyed_ofTree _ _ _

/-- A tree is no project, or it is refused under a key. -/
theorem ofTree_error_cases {d : Defaults} {o : Options} {tree : Value} {e : ConfigError} (h : ofTree d o tree = .error e) :
    e = .notMapping tree.kind ∨ e = .notProject ∨ e.key?.isSome = true := by
  unfold ofTree at h
  split at h
  · split at h
    · exact .inr (.inr ((keyed_configurationOf d o _).map e h))
    · cases h
      exact .inr (.inl rfl)
  · cases h
    exact .inl rfl

/-- A resolution of a tree does not fail over a file. -/
theorem isLoadError_of_ofTree {d : Defaults} {o : Options} {tree : Value} {e : ConfigError}
    (h : ofTree d o tree = .error e) : e.isLoadError = false := by
  rcases ofTree_error_cases h with rfl | rfl | hkey
  · rfl
  · rfl
  · exact ConfigError.isLoadError_of_key? hkey

end Resolution
end AssetPlan
