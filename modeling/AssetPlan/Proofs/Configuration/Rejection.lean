import AssetPlan.Proofs.Defaults.Rejection
import AssetPlan.Proofs.Routing.Rejection

/-! # Rejected values of a filled tree

A filled tree has all sections and every setting that must be there. So if it cannot be read, some value in it is
rejected, and the error names the path to that value. -/

namespace AssetPlan.Configuration
open Mapping Defaults
variable {tree fields : Mapping} {name setting : String} {standard : Bool} {v : Value} {e : ConfigError} {shape : Shape}
  {inv : Invocation}

/-- An error that blames some value of a tree. -/
def Blamed (tree : Mapping) (e : ConfigError) : Prop := ∃ path v, Blames tree e path v

/-! ### Single settings -/

theorem blamed_of_get? (hfields : Entries.get? tree name = some (.mapping fields)) (hknown : Known [name, setting] shape)
    (hv : Entries.get? fields setting = some v) (hkey : e.key? = some [name, setting]) (hwanted : e.wanted? = some shape)
    (hrejects : e.Rejects v) : Blamed tree e :=
  ⟨_, v, .of_known hknown hwanted hkey ((find?_of_get? hfields setting).trans hv) hrejects⟩

theorem blamed_of_flag? (hfields : Entries.get? tree name = some (.mapping fields)) (hknown : Known [name, setting] .boolean)
    (h : fields.flag? [name] setting standard = .error e) : Blamed tree e := by
  obtain ⟨v, hv, hfits, rfl⟩ := flag?_eq_error h
  exact blamed_of_get? hfields hknown hv rfl rfl hfits

theorem blamed_of_top_flag? (hknown : Known [setting] .boolean) (h : tree.flag? [] setting standard = .error e) :
    Blamed tree e := by
  obtain ⟨v, hv, hfits, rfl⟩ := flag?_eq_error h
  exact ⟨_, v, .of_known hknown rfl rfl ((find?_singleton tree setting).trans hv) hfits⟩

/-! ### What a filled tree has -/

theorem exists_filled (hfilled : Filled {} inv tree) {target : List String}
    (hmem : ∀ loaded persistent, (.fills, target) ∈ outlines loaded persistent) : ∃ v, tree.find? target = some v := by
  have hfills := hmem inv.configPath.isSome inv.persistent
  rw [← outline_steps {}] at hfills
  obtain ⟨s, hs, houtline⟩ := List.mem_map.mp hfills
  have hsettled := hfilled s hs
  cases s with
  | fill path key value =>
    obtain ⟨-, v, hv, -⟩ := hsettled
    have htarget : path ++ [key] = target := congrArg Prod.snd houtline
    exact ⟨v, htarget ▸ hv⟩
  | _ => cases congrArg Prod.fst houtline

theorem get?_of_filled (hfilled : Filled {} inv tree) (hfields : Entries.get? tree name = some (.mapping fields))
    (hmem : ∀ loaded persistent, (.fills, [name, setting]) ∈ outlines loaded persistent) :
    ∃ v, Entries.get? fields setting = some v := by
  obtain ⟨v, hv⟩ := exists_filled hfilled hmem
  exact ⟨v, (find?_of_get? hfields setting).symm.trans hv⟩

theorem exists_paths (hfilled : Filled {} inv tree) :
    ∃ fields paths, Entries.get? tree "paths" = some (.mapping fields) ∧ Paths.ofFields fields = .ok paths := by
  obtain ⟨fields, hfields⟩ := hfilled.get?_section "paths" (by simp [steps, pathSteps])
  -- Defaulting asked for each of the five texts, so each is there.
  have htext : ∀ key, .requireText ["paths"] key ∈ steps {} inv → ∃ s, Entries.get? fields key = some (.string s) := by
    intro key hmem
    obtain ⟨s, hs⟩ := hfilled _ hmem
    exact ⟨s, (find?_of_get? hfields key).symm.trans hs⟩
  obtain ⟨root, hroot⟩ := htext "root" (by simp [steps, pathSteps])
  obtain ⟨publicPath, hpublic⟩ := htext "public" (by simp [steps, pathSteps])
  obtain ⟨config, hconfig⟩ := htext "config" (by simp [steps, pathSteps])
  obtain ⟨packageConfig, hpackage⟩ := htext "packageConfig" (by simp [steps, pathSteps])
  obtain ⟨bowerConfig, hbower⟩ := htext "bowerConfig" (by simp [steps, pathSteps])
  obtain ⟨v, hv, hfound⟩ := hfilled (.write ["paths"] "watched" watchedList) (by simp [steps, pathSteps])
  obtain ⟨watched, hne, rfl⟩ := watchedList_eq_ok hv
  have hwatched : Entries.get? fields "watched" = some (.ofStrings watched) := (find?_of_get? hfields "watched").symm.trans hfound
  exact ⟨fields, ⟨root, publicPath, watched, config, packageConfig, bowerConfig⟩, hfields,
    Paths.ofFields_of_get? hroot hpublic hwatched (watched_ofStrings hne) hconfig hpackage hbower⟩

/-! ### Sections -/

theorem known_convention (name : String) : Known ["conventions", name] .pattern := by
  have htable : ∀ entry ∈ shapes, entry.1.head? = some "conventions" → entry.1.length = 2 → entry.2 = .pattern := by decide
  refine ⟨nofun, fun known hknown => ?_, fun front hfront hstarts => ?_⟩
  · exact htable _ (Entries.mem_of_get?_eq_some (Option.mem_toList.mp hknown)) rfl rfl
  · rcases List.mem_cons.mp hfront with rfl | hfront
    · exact absurd (List.cons_prefix_cons.mp hstarts).1 (by decide)
    · obtain rfl := List.mem_singleton.mp hfront
      exact (hstarts.eq_of_length rfl).symm

theorem blamed_of_conventions (hfields : Entries.get? tree "conventions" = some (.mapping fields))
    (hw : Entries.WellKeyed fields) (h : Conventions.ofFields fields = .error e) : Blamed tree e := by
  rcases bind_eq_error.mp h with h | ⟨matchers, -, h⟩
  -- Any name may stand for a convention, so the table of settings is not asked for this one.
  · obtain ⟨⟨name, v⟩, hmem, h⟩ := exists_of_mapM_eq_error h
    have hv := Entries.get?_of_mem hw (List.mem_filter.mp hmem).1
    rcases bind_eq_error.mp h with h | ⟨p, -, h⟩
    · obtain ⟨hkey, hwanted, hrejects⟩ := Value.rejects_of_toPattern h
      exact blamed_of_get? hfields (known_convention name) hv hkey hwanted hrejects
    · cases h
  · cases h

theorem format_eq_error (h : Modules.format fields setting = .error e) (hv : Entries.get? fields setting = some v) :
    e.key? = some ["modules", setting] ∧ e.wanted? = some .moduleFormat ∧ e.Rejects v := by
  unfold Modules.format at h
  rw [hv] at h
  dsimp only at h
  unfold ModuleFormat.ofValue at h
  split at h
  · cases h
  · cases h
  · cases h
  · rename_i hcommonjs hamd hdisabled
    cases h
    refine ⟨rfl, rfl, ?_⟩
    rintro (rfl | rfl | rfl)
    · exact hcommonjs rfl
    · exact hamd rfl
    · exact hdisabled rfl

theorem cleanerOf_eq_error (h : Modules.cleanerOf v = .error e) :
    v.isNull = false ∧ e.key? = some ["modules", "nameCleaner"] ∧ e.wanted? = some .regex ∧ e.Rejects v := by
  cases v with
  | null => cases h
  | regex r => cases h
  | string s =>
    unfold Modules.cleanerOf at h
    dsimp only at h
    cases hs : Regex.ofSource? (String.ofList (Modules.betweenSlashes s.toList)) false with
    | some r =>
      rw [hs] at h
      cases h
    | none =>
      rw [hs] at h
      cases h
      exact ⟨rfl, rfl, rfl, s, rfl, hs⟩
  | _ =>
    cases h
    exact ⟨rfl, rfl, rfl, by rintro (⟨_, h⟩ | ⟨_, h⟩) <;> cases h⟩

theorem known_required (name : String) : Known ["modules", "autoRequire", name] .moduleNameOrNames := by
  have htable : ∀ entry ∈ shapes, entry.1.head? = some "modules" → entry.1.length ≠ 3 := by decide
  refine ⟨nofun, fun known hknown => ?_, ends_of_head (by decide)⟩
  exact absurd rfl (htable _ (Entries.mem_of_get?_eq_some (Option.mem_toList.mp hknown)) rfl)

theorem blamed_of_autoRequire {bundles : Mapping} (hfields : Entries.get? tree "modules" = some (.mapping fields))
    (hbundles : Entries.get? fields "autoRequire" = some (.mapping bundles)) (hw : Entries.WellKeyed bundles)
    (h : Modules.autoRequireOf (.mapping bundles) = .error e) : Blamed tree e := by
  obtain ⟨⟨name, v⟩, hmem, h⟩ := exists_of_mapM_eq_error h
  unfold Modules.requiredModules at h
  dsimp only at h
  cases hnames : v.strings? with
  | some names =>
    rw [hnames] at h
    cases h
  | none =>
    rw [hnames] at h
    cases h
    refine ⟨_, v, .of_known (known_required name) rfl rfl ?_ (Shape.not_fits_of_strings? hnames)⟩
    rw [find?_cons_eq, hfields]
    exact (find?_of_get? hbundles name).trans (Entries.get?_of_mem hw hmem)

theorem blamed_of_modules (hfilled : Filled {} inv tree) (hw : (Value.mapping fields).WellKeyed)
    (hfields : Entries.get? tree "modules" = some (.mapping fields)) (h : Modules.ofFields fields = .error e) :
    Blamed tree e := by
  -- A format that defaulting filled in is there, so it is what the error is about.
  have hformat : ∀ {setting}, Known ["modules", setting] .moduleFormat →
      (∀ loaded persistent, (.fills, ["modules", setting]) ∈ outlines loaded persistent) → Modules.format fields setting = .error e → Blamed tree e := by
    intro setting hknown hmem h
    obtain ⟨v, hv⟩ := get?_of_filled hfilled hfields hmem
    obtain ⟨hkey, hwanted, hrejects⟩ := format_eq_error h hv
    exact blamed_of_get? hfields hknown hv hkey hwanted hrejects
  rcases bind_eq_error.mp h with h | ⟨wrapper, -, h⟩
  · exact hformat (by decide) (by decide +kernel) h
  rcases bind_eq_error.mp h with h | ⟨definition, -, h⟩
  · exact hformat (by decide) (by decide +kernel) h
  rcases bind_eq_error.mp h with h | ⟨nameCleaner, -, h⟩
  -- A missing cleaner is accepted, so the rejected one was written.
  · obtain ⟨hnull, hkey, hwanted, hrejects⟩ := cleanerOf_eq_error h
    cases hv : Entries.get? fields "nameCleaner" with
    | none =>
      rw [hv] at hnull
      cases hnull
    | some v =>
      rw [hv] at hrejects
      exact blamed_of_get? hfields (by decide) hv hkey hwanted hrejects
  rcases bind_eq_error.mp h with h | ⟨autoRequire, -, h⟩
  · obtain ⟨bundles, hbundles⟩ := hfilled (.openSection ["modules"] "autoRequire") (by simp [steps, buildSteps])
    have hget : Entries.get? fields "autoRequire" = some (.mapping bundles) := (find?_of_get? hfields _).symm.trans hbundles
    rw [hget] at h
    exact blamed_of_autoRequire hfields hget (hw.get? hget).1 h
  · cases h

theorem namesOf_eq_error (h : Plugins.namesOf setting v = .error e) :
    e.key? = some ["plugins", setting] ∧ (e.wanted? = some .pluginNames ∨ e.wanted? = some .pluginNameOrNames) ∧
      e.Rejects v := by
  unfold Plugins.namesOf at h
  split at h
  · cases h
  · cases v with
    | string name => cases h
    | list items =>
      cases hnames : Value.allStrings? items with
      | some names =>
        unfold PluginSelector.ofValue at h
        dsimp only at h
        rw [hnames] at h
        cases h
      | none =>
        unfold PluginSelector.ofValue at h
        dsimp only at h
        rw [hnames] at h
        cases h
        exact ⟨rfl, .inl rfl, Shape.not_fits_of_strings? (v := .list items) hnames⟩
    | _ =>
      cases h
      exact ⟨rfl, .inr rfl, by rintro (⟨_, h⟩ | ⟨_, h⟩) <;> cases h⟩

theorem blamed_of_plugins (hfields : Entries.get? tree "plugins" = some (.mapping fields)) (hw : Entries.WellKeyed fields)
    (h : Plugins.ofFields fields = .error e) : Blamed tree e := by
  obtain ⟨⟨name, v⟩, hmem, p, h⟩ := exists_of_foldlM_eq_error h
  have hv := Entries.get?_of_mem hw hmem
  have hnames : ∀ {change : List String → Plugins}, Known ["plugins", name] .pluginNames →
      Known ["plugins", name] .pluginNameOrNames → (Plugins.namesOf name v).map change = .error e → Blamed tree e := by
    intro change hlist hone h
    cases hread : Plugins.namesOf name v with
    | ok names =>
      rw [hread] at h
      cases h
    | error e' =>
      rw [hread] at h
      cases h
      obtain ⟨hkey, hwanted | hwanted, hrejects⟩ := namesOf_eq_error hread
      · exact blamed_of_get? hfields hlist hv hkey hwanted hrejects
      · exact blamed_of_get? hfields hone hv hkey hwanted hrejects
  unfold Plugins.add at h
  split at h
  · rename_i heq
    cases heq
    exact hnames (by decide) (by decide) h
  · rename_i heq
    cases heq
    exact hnames (by decide) (by decide) h
  · rename_i heq
    cases heq
    exact hnames (by decide) (by decide) h
  · cases h

theorem portOf_eq_error (h : Server.portOf fields = .error e) (hv : Entries.get? fields "port" = some v) :
    ¬ Shape.port.Fits v ∧ e = .structural ["server", "port"] (.misshapen .port) := by
  unfold Server.portOf at h
  rw [hv, Option.bind_some] at h
  cases hn : v.nat? with
  | none =>
    rw [hn] at h
    cases h
    refine ⟨?_, rfl⟩
    rintro ⟨n, hfits, -⟩
    rw [hn] at hfits
    cases hfits
  | some n =>
    rw [hn] at h
    dsimp only at h
    split at h
    · cases h
    · rename_i hlarge
      cases h
      refine ⟨?_, rfl⟩
      rintro ⟨n', hfits, hsmall⟩
      rw [hn] at hfits
      cases hfits
      exact hlarge hsmall

theorem blamed_of_server (hfilled : Filled {} inv tree) (hfields : Entries.get? tree "server" = some (.mapping fields))
    (h : Server.ofFields fields = .error e) : Blamed tree e := by
  have htext : ∀ {setting}, Known ["server", setting] .string → (∃ v, Entries.get? fields setting = some v) →
      Server.text fields setting = .error e → Blamed tree e := by
    rintro setting hknown ⟨v, hv⟩ h
    unfold Server.text at h
    rw [hv] at h
    cases v with
    | string s => cases h
    | _ =>
      cases h
      exact blamed_of_get? hfields hknown hv rfl rfl nofun
  -- The public path is not filled in: the output folder is written over whatever it was.
  have hserved : ∃ v, Entries.get? fields "publicPath" = some v := by
    obtain ⟨text, hpublic⟩ := hfilled.find?_public
    exact ⟨_, (find?_of_get? hfields _).symm.trans (hfilled.find?_served hpublic)⟩
  rcases bind_eq_error.mp h with h | ⟨port, -, h⟩
  · obtain ⟨v, hv⟩ := get?_of_filled hfilled hfields (by decide +kernel : ∀ _ _, (.fills, ["server", "port"]) ∈ outlines _ _)
    obtain ⟨hfits, rfl⟩ := portOf_eq_error h hv
    exact blamed_of_get? hfields (by decide) hv rfl rfl hfits
  rcases bind_eq_error.mp h with h | ⟨publicPath, -, h⟩
  · exact htext (by decide) hserved h
  rcases bind_eq_error.mp h with h | ⟨base, -, h⟩
  · exact htext (by decide) (get?_of_filled hfilled hfields (by decide +kernel)) h
  rcases bind_eq_error.mp h with h | ⟨hostname, -, h⟩
  · exact htext (by decide) (get?_of_filled hfilled hfields (by decide +kernel)) h
  rcases bind_eq_error.mp h with h | ⟨run, -, h⟩
  · exact blamed_of_flag? hfields (by decide) h
  · cases h

theorem blamed_of_npm (hfields : Entries.get? tree "npm" = some (.mapping fields)) (h : Npm.ofFields fields = .error e) :
    Blamed tree e := by
  rcases bind_eq_error.mp h with h | ⟨staticModules, -, h⟩
  · unfold Npm.staticOf at h
    cases hv : Entries.get? fields "static" with
    | none =>
      rw [hv] at h
      cases h
    | some v =>
      rw [hv, Option.getD_some] at h
      split at h
      · cases h
      · cases hnames : v.strings? with
        | some names =>
          rw [hnames] at h
          cases h
        | none =>
          rw [hnames] at h
          cases h
          exact blamed_of_get? hfields (by decide) hv rfl rfl (Shape.not_fits_of_strings? hnames)
  rcases bind_eq_error.mp h with h | ⟨enabled, -, h⟩
  · exact blamed_of_flag? hfields (by decide) h
  · cases h

theorem blamed_of_interval (h : intervalOf tree = .error e) : Blamed tree e := by
  unfold intervalOf at h
  cases hv : Entries.get? tree "fileListInterval" with
  | none =>
    rw [hv] at h
    cases h
  | some v =>
    rw [hv] at h
    dsimp only at h
    cases hn : v.nat? with
    | some n =>
      rw [hn] at h
      cases h
    | none =>
      rw [hn] at h
      cases h
      refine ⟨_, v, .of_known (by decide : Known ["fileListInterval"] .milliseconds) rfl rfl
        ((find?_singleton tree _).trans hv) ?_⟩
      rintro ⟨n, hfits⟩
      rw [hn] at hfits
      cases hfits

theorem blamed_of_files {files : Mapping} {watched : List String} (hw : (Value.mapping tree).WellKeyed)
    (hfiles : Entries.get? tree "files" = some (.mapping files)) (h : (Routing.ofFiles files watched).result = .error e) :
    Blamed tree e := by
  obtain ⟨path, v, hkey, hfound, hrejects⟩ := Routing.rejects_of_ofFiles (hw.get? hfiles) h
  -- No known setting stands under `files`, so the shape wanted there is the error's own.
  refine ⟨"files" :: path, v, hkey, ?_, hrejects, nofun, fun shape hshape => ?_, ends_of_head (by decide)⟩
  · rw [find?_cons_eq, hfiles]
    exact hfound
  · exact absurd rfl ((by decide : ∀ entry ∈ shapes, entry.1.head? ≠ some "files") _ (Entries.mem_of_get?_eq_some hshape))

/-! ### Whole trees -/

/-- Asking for a section that defaulting opened cannot fail, so it is the rest of the reading that does. -/
theorem error_behind_section {α : Type} {f : Mapping → Reported α} (hfilled : Filled {} inv tree)
    (hopens : .openSection [] name ∈ steps {} inv) (h : (Reported.ofExcept (tree.required name) >>= f).result = .error e) :
    ∃ fields, Entries.get? tree name = some (.mapping fields) ∧ (f fields).result = .error e := by
  obtain ⟨fields, hfields⟩ := hfilled.get?_section name hopens
  rw [required_of_get? hfields] at h
  exact ⟨fields, hfields, h⟩

/-- A filled tree that has routing and cannot be read has a value that is rejected. -/
theorem blamed_of_ofTree {environments : List String} {isProduction : Bool} (hfilled : Filled {} inv tree)
    (hw : (Value.mapping tree).WellKeyed) (hfiles : tree.hasValue "files" = true)
    (h : (ofTree environments isProduction tree).result = .error e) : Blamed tree e := by
  obtain ⟨pathFields, hpathFields, h⟩ := error_behind_section hfilled (by simp [steps, pathSteps]) h
  rcases Reported.result_bind_eq_error.mp h with h | ⟨paths, -, h⟩
  -- The paths of a filled tree are read whatever they are.
  · obtain ⟨fields, paths, hfields, hpaths⟩ := exists_paths hfilled
    cases hfields.symm.trans hpathFields
    cases hpaths.symm.trans h
  -- `files` is the one section that defaulting does not open: it may hold some other value.
  rcases Reported.result_bind_eq_error.mp h with h | ⟨files, hfilesFields, h⟩
  · obtain ⟨u, hu, -⟩ := hasValue_iff.mp hfiles
    rcases required_eq_error h with hnone | ⟨v, hv, hfits, rfl⟩
    · rw [hu] at hnone
      cases hnone
    · exact ⟨_, v, .of_known (by decide : Known ["files"] .mapping) rfl rfl ((find?_singleton tree _).trans hv) hfits⟩
  rcases Reported.result_bind_eq_error.mp h with h | ⟨routing, -, h⟩
  · exact blamed_of_files hw (required_eq_ok hfilesFields) h
  -- From here on each section is there, and an error comes from what stands in it.
  obtain ⟨conventionFields, hconventions, h⟩ := error_behind_section hfilled (by simp [steps, conventionSteps]) h
  rcases Reported.result_bind_eq_error.mp h with h | ⟨conventions, -, h⟩
  · exact blamed_of_conventions hconventions (hw.get? hconventions).1 h
  obtain ⟨moduleFields, hmodules, h⟩ := error_behind_section hfilled (by simp [steps, buildSteps]) h
  rcases Reported.result_bind_eq_error.mp h with h | ⟨modules, -, h⟩
  · exact blamed_of_modules hfilled (hw.get? hmodules) hmodules h
  obtain ⟨pluginFields, hplugins, h⟩ := error_behind_section hfilled (by simp [steps, buildSteps]) h
  rcases Reported.result_bind_eq_error.mp h with h | ⟨plugins, -, h⟩
  · exact blamed_of_plugins hplugins (hw.get? hplugins).1 h
  obtain ⟨serverFields, hserver, h⟩ := error_behind_section hfilled (by simp [steps, serverSteps]) h
  rcases Reported.result_bind_eq_error.mp h with h | ⟨server, -, h⟩
  · exact blamed_of_server hfilled hserver h
  obtain ⟨npmFields, hnpm, h⟩ := error_behind_section hfilled (by simp [steps, environmentSteps]) h
  rcases Reported.result_bind_eq_error.mp h with h | ⟨npm, -, h⟩
  · exact blamed_of_npm hnpm h
  obtain ⟨hooks, -, h⟩ := error_behind_section hfilled (by simp [steps, environmentSteps]) h
  obtain ⟨overrides, -, h⟩ := error_behind_section hfilled (by simp [steps, environmentSteps]) h
  rcases Reported.result_bind_eq_error.mp h with h | ⟨interval, -, h⟩
  · exact blamed_of_interval h
  obtain ⟨watcherFields, hwatcher, h⟩ := error_behind_section hfilled (by simp [steps, buildSteps]) h
  rcases Reported.result_bind_eq_error.mp h with h | ⟨usePolling, -, h⟩
  · exact blamed_of_flag? hwatcher (by decide) h
  rcases Reported.result_bind_eq_error.mp h with h | ⟨persistent, -, h⟩
  · exact blamed_of_top_flag? (by decide) h
  rcases Reported.result_bind_eq_error.mp h with h | ⟨optimize, -, h⟩
  · exact blamed_of_top_flag? (by decide) h
  rcases Reported.result_bind_eq_error.mp h with h | ⟨sourceMaps, -, h⟩
  · exact blamed_of_top_flag? (by decide) h
  rcases Reported.result_bind_eq_error.mp h with h | ⟨notifications, -, h⟩
  · exact blamed_of_top_flag? (by decide) h
  · cases h

end AssetPlan.Configuration
