import AssetPlan.Proofs.Cascade.Precedence
import AssetPlan.Proofs.Defaults.Fresh
import AssetPlan.Proofs.FileSystem
import AssetPlan.Proofs.Legacy
import AssetPlan.Proofs.Resolution
import AssetPlan.Proofs.Source

/-! # The loaded file among the configuration files

The path of a loaded file takes the place of whatever the file declares as its own path. Unless an environment writes it
again it is the path that the finished configuration has, and since the file could be read under it in the format that its
extension names, it is one of the names under which the configuration file may stand. -/

namespace AssetPlan.Resolution
open Mapping
variable {files : FileSystem} {path : String} {options : Options} {resolution : Resolution} {config : Mapping}

/-- The layers that a resolution merges for its environments, in order. -/
def appliedLayers (defaults : Defaults) (options : Options) (config : Mapping) : List Mapping :=
  match defaults.apply ⟨options.configPath, options.persistent⟩ (Legacy.migrate config) with
  | .ok filled => Cascade.applied filled options.environments
  | .error _ => []

/-- The layer of an invocation leaves the path of the configuration file alone. -/
theorem silent_layer (o : Options) : (Value.mapping o.layer).Silent ["paths", "config"] := by
  refine ⟨rfl, fun u hu => ?_⟩
  change Entries.get? o.layer "paths" = some u at hu
  rw [Options.get?_layer_paths] at hu
  obtain ⟨path, -, rfl⟩ := Option.map_eq_some_iff.mp hu
  exact ⟨rfl, nofun⟩

/-- The path that a tree was read from is that of its finished configuration, if no environment writes it again. -/
theorem config_of_ofTree {defaults : Defaults} (hw : (Value.mapping config).WellKeyed) (hpath : options.configPath = some path)
    (hs : ∀ layer ∈ appliedLayers defaults options config, (Value.mapping layer).Silent ["paths", "config"])
    (h : ofTree defaults options (.mapping config) = .ok resolution) : resolution.configuration.paths.config = path := by
  obtain ⟨_, filled, final, hconfig, -, hfilled, hcascade, hread⟩ := ofTree_eq_ok h
  cases hconfig
  obtain ⟨-, -, hread⟩ := Configuration.ofTree_eq_ok hread
  have hwf : (Value.mapping filled).WellKeyed := Defaults.wellKeyed_of_apply (Legacy.wellKeyed_migrate hw) hfilled
  have hpath' := (Defaults.filled_of_apply hfilled).find?_config hpath
  unfold appliedLayers at hs
  rw [hfilled] at hs
  have hfinal : final.find? ["paths", "config"] = filled.find? ["paths", "config"] :=
    Cascade.find?_apply_of_silent (by decide) hwf options.wellKeyed_layer hs (silent_layer options) hcascade
  have hsame := (hread.find?_config.symm.trans hfinal).trans hpath'
  exact Value.string.inj (Option.some.inj hsame)

theorem ofFile_eq_ok (h : ofFile files path options = .ok resolution) : ∃ loaded r,
    Source.load files path = .ok loaded ∧ ofTree {} (withLoadedPath options path) loaded.value = .ok r ∧
      resolution = { r with source := some loaded.source } := by
  obtain ⟨loaded, hload, h⟩ := bind_eq_ok.mp h
  obtain ⟨r, hr, h⟩ := bind_eq_ok.mp h
  cases h
  rw [Source.path_of_load hload] at hr
  exact ⟨loaded, r, hload, hr, rfl⟩

/-- The file that a configuration was read from is one of those that may hold it: its path, whatever the file declares in
    its place, and the path that differs from it in the extension only. They follow the files of packages among all files
    with settings. -/
theorem ofFile_lists_loaded (hfiles : files.ReadsNames) (hoptions : options.configPath = none)
    (hs : ∀ loaded config, Source.load files path = .ok loaded → loaded.value = .mapping config →
      ∀ layer ∈ appliedLayers {} (withLoadedPath options path) config, (Value.mapping layer).Silent ["paths", "config"])
    (h : ofFile files path options = .ok resolution) :
    resolution.configuration.paths.config = path ∧ path ∈ resolution.configuration.paths.possibleConfigFiles ∧
      (∃ stem, resolution.configuration.paths.possibleConfigFiles = [stem ++ ".toml", stem ++ ".json"]) ∧
      resolution.configuration.paths.allConfigFiles = resolution.configuration.paths.packageConfig ::
        resolution.configuration.paths.bowerConfig :: resolution.configuration.paths.possibleConfigFiles := by
  obtain ⟨loaded, r, hload, hr, rfl⟩ := ofFile_eq_ok h
  obtain ⟨config, -, -, hconfig, -⟩ := ofTree_eq_ok hr
  rw [hconfig] at hr
  have hw : (Value.mapping config).WellKeyed := hconfig ▸ Source.wellKeyed_of_load hload
  have hpath : (withLoadedPath options path).configPath = some path := by
    unfold withLoadedPath
    rw [hoptions]
    rfl
  have hsame : r.configuration.paths.config = path := config_of_ofTree hw hpath (hs loaded config hload hconfig) hr
  obtain ⟨bytes, text, format, hread, -, hformat, -⟩ := Source.load_eq_ok hload
  obtain ⟨before, hending⟩ := Format.exists_ending_of_ofPath? hformat (hfiles path bytes hread)
  have hlisted := Paths.config_mem_possibleConfigFiles ((congrArg String.toList hsame).trans hending)
  exact ⟨hsame, hsame ▸ hlisted, ⟨_, Paths.possibleConfigFiles_eq _⟩, rfl⟩

/-- A file with two extensions that declares another path as its own, and an environment that moves the output. -/
def movedFile : FileTree :=
  FileTree.empty.withFile "conf/app.json.toml"
    "paths.config = \"other\"\n[files]\n[overrides.ci.paths]\npublic = \"build\"\n".toUTF8.data.toList

theorem ofFile_lists_loaded_movedFile : ∃ resolution,
    ofFile movedFile.fileSystem "conf/app.json.toml" { named := ["ci"] } = .ok resolution ∧
    resolution.configuration.paths.publicPath = "build" ∧ resolution.configuration.paths.config = "conf/app.json.toml" ∧
    "conf/app.json.toml" ∈ resolution.configuration.paths.possibleConfigFiles := by
  have hpublic : (ofFile movedFile.fileSystem "conf/app.json.toml" { named := ["ci"] }).toOption.map
      (·.configuration.paths.publicPath) = some "build" := by decide +kernel
  have hlayers : ((Source.load movedFile.fileSystem "conf/app.json.toml").toOption.bind (·.value.mapping?)).all fun config =>
      decide (∀ layer ∈ appliedLayers {} (withLoadedPath { named := ["ci"] } "conf/app.json.toml") config,
        (Value.mapping layer).Silent ["paths", "config"]) := by decide +kernel
  cases h : ofFile movedFile.fileSystem "conf/app.json.toml" { named := ["ci"] } with
  | error e =>
    rw [h] at hpublic
    cases hpublic
  | ok resolution =>
    rw [h] at hpublic
    obtain ⟨hconfig, hlisted, -, -⟩ := ofFile_lists_loaded movedFile.readsNames_fileSystem rfl (fun loaded config hload hv => by
      rw [hload] at hlayers
      change (loaded.value.mapping?).all _ = true at hlayers
      rw [hv] at hlayers
      exact of_decide_eq_true hlayers) h
    exact ⟨resolution, rfl, Option.some.inj hpublic, hconfig, hlisted⟩

end AssetPlan.Resolution
