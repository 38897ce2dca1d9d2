import AssetPlan.Configuration
import AssetPlan.Proofs.Value.Section

/-! # Configurations as readings of their trees

A configuration that was read is determined section by section by the tree: `ReadFrom` lists what each of its
parts is a reading of. A tree from which every part can be read is read as a whole (`ReadFrom.result_ofTree`). -/

namespace AssetPlan
variable {fields tree : Mapping}

namespace Value
variable {v : Value} {items : List Value} {texts : List String}

theorem watchedItems_eq_ok : watchedItems items = .ok texts ↔ items = texts.map .string := by
  induction items generalizing texts with
  | nil =>
    constructor
    · intro h
      cases h
      rfl
    · intro h
      rw [List.map_eq_nil_iff.mp h.symm]
      rfl
  | cons item rest ih =>
    constructor
    · intro h
      cases item with
      | string s =>
        rw [watchedItems] at h
        cases hrest : watchedItems rest with
        | error e =>
          rw [hrest] at h
          cases h
        | ok texts' =>
          rw [hrest] at h
          cases h
          rw [ih.mp hrest, List.map_cons]
      | _ => cases h
    · intro h
      cases texts with
      | nil => cases h
      | cons text texts =>
        obtain ⟨rfl, hrest⟩ := List.cons.inj h
        rw [watchedItems, ih.mpr hrest]
        rfl

/-- Watched directories are one string, or a list of strings that is not empty. -/
theorem watched_eq_ok : v.watched = .ok texts ↔ (∃ text, v = .string text ∧ texts = [text]) ∨ texts ≠ [] ∧ v = .ofStrings texts := by
  constructor
  · intro h
    unfold watched at h
    split at h
    · cases h
      exact .inl ⟨_, rfl, rfl⟩
    · cases h
    · rename_i items hitems
      obtain rfl := watchedItems_eq_ok.mp h
      exact .inr ⟨fun hnil => hitems (hnil ▸ rfl), rfl⟩
    · cases h
  · rintro (⟨text, rfl, rfl⟩ | ⟨hne, rfl⟩)
    · rfl
    · cases texts with
      | nil => exact absurd rfl hne
      | cons text rest => exact watchedItems_eq_ok.mpr rfl

theorem watched_ne_nil (h : v.watched = .ok texts) : texts ≠ [] := by
  rcases watched_eq_ok.mp h with ⟨text, -, rfl⟩ | ⟨hne, -⟩
  · exact List.cons_ne_nil text []
  · exact hne

end Value

namespace Paths

theorem ofFields_eq_ok {paths : Paths} (h : ofFields fields = .ok paths) :
    Entries.get? fields "public" = some (.string paths.publicPath) ∧
      Entries.get? fields "config" = some (.string paths.config) ∧ paths.watched ≠ [] := by
  obtain ⟨root, hroot, h⟩ := bind_eq_ok.mp h
  obtain ⟨publicPath, hpublic, h⟩ := bind_eq_ok.mp h
  dsimp only at h
  split at h
  · obtain ⟨watched, hwatched, h⟩ := bind_eq_ok.mp h
    obtain ⟨config, hconfig, h⟩ := bind_eq_ok.mp h
    obtain ⟨packageConfig, hpackage, h⟩ := bind_eq_ok.mp h
    obtain ⟨bowerConfig, hbower, h⟩ := bind_eq_ok.mp h
    cases h
    exact ⟨Mapping.text?_eq_ok hpublic, Mapping.text?_eq_ok hconfig, Value.watched_ne_nil hwatched⟩
  · cases h

theorem ofFields_of_get? {paths : Paths} {watched : Value} (hroot : Entries.get? fields "root" = some (.string paths.root))
    (hpublic : Entries.get? fields "public" = some (.string paths.publicPath))
    (hwatched : Entries.get? fields "watched" = some watched) (hwatchedOk : watched.watched = .ok paths.watched)
    (hconfig : Entries.get? fields "config" = some (.string paths.config))
    (hpackage : Entries.get? fields "packageConfig" = some (.string paths.packageConfig))
    (hbower : Entries.get? fields "bowerConfig" = some (.string paths.bowerConfig)) : ofFields fields = .ok paths := by
  have htext : ∀ {key s}, Entries.get? fields key = some (.string s) → fields.text? ["paths"] key = .ok s :=
    fun h => Mapping.text?_of_get? h _
  unfold ofFields
  rw [htext hroot, htext hpublic, hwatched, htext hconfig, htext hpackage, htext hbower]
  dsimp only [Bind.bind, Except.bind]
  rw [hwatchedOk]

end Paths

namespace Server

theorem text_eq_ok {key s : String} (h : text fields key = .ok s) : Entries.get? fields key = some (.string s) := by
  unfold text at h
  split at h
  · cases h
    assumption
  · cases h
  · cases h

theorem portOf_eq_ok {port : UInt16} (h : portOf fields = .ok port) :
    (Entries.get? fields "port").bind Value.nat? = some port.toNat := by
  unfold portOf at h
  split at h
  · rename_i n hn
    split at h
    · rename_i hlt
      cases h
      rw [hn, UInt16.toNat_ofNat_of_lt' hlt]
    · cases h
  · cases h

theorem ofFields_eq_ok {server : Server} (h : ofFields fields = .ok server) :
    Entries.get? fields "publicPath" = some (.string server.publicPath) ∧
      (Entries.get? fields "port").bind Value.nat? = some server.port.toNat ∧
      server.run = ((Entries.get? fields "run").bind Value.bool?).getD false := by
  obtain ⟨port, hport, h⟩ := bind_eq_ok.mp h
  obtain ⟨publicPath, hpublic, h⟩ := bind_eq_ok.mp h
  obtain ⟨base, hbase, h⟩ := bind_eq_ok.mp h
  obtain ⟨hostname, hhostname, h⟩ := bind_eq_ok.mp h
  obtain ⟨run, hrun, h⟩ := bind_eq_ok.mp h
  cases h
  exact ⟨text_eq_ok hpublic, portOf_eq_ok hport, Mapping.flag?_eq_ok hrun⟩

theorem ofFields_of_get? {server : Server}
    (hpublic : Entries.get? fields "publicPath" = some (.string server.publicPath))
    (hbase : Entries.get? fields "base" = some (.string server.base))
    (hport : Entries.get? fields "port" = some (.ofNat server.port.toNat))
    (hhostname : Entries.get? fields "hostname" = some (.string server.hostname))
    (hrun : Entries.get? fields "run" = some (.bool server.run)) : ofFields fields = .ok server := by
  have htext : ∀ {key s}, Entries.get? fields key = some (.string s) → text fields key = .ok s := by
    intro key s h
    unfold text
    rw [h]
  have hportOk : portOf fields = .ok server.port := by
    unfold portOf
    rw [hport]
    show (if server.port.toNat < UInt16.size then _ else _) = _
    rw [if_pos server.port.toNat_lt, UInt16.ofNat_toNat]
  unfold ofFields
  rw [hportOk, htext hpublic, htext hbase, htext hhostname, Mapping.flag?_of_get? hrun]
  rfl

end Server

namespace Configuration

/-- What every part of a configuration was read from. -/
structure ReadFrom (tree : Mapping) (c : Configuration) : Prop where
  paths : ∃ fields, tree.required "paths" = .ok fields ∧ Paths.ofFields fields = .ok c.paths
  routing : ∃ files, tree.required "files" = .ok files ∧ (Routing.ofFiles files c.paths.watched).result = .ok c.routing
  conventions : ∃ fields, tree.required "conventions" = .ok fields ∧ Conventions.ofFields fields = .ok c.conventions
  modules : ∃ fields, tree.required "modules" = .ok fields ∧ Modules.ofFields fields = .ok c.modules
  plugins : ∃ fields, tree.required "plugins" = .ok fields ∧ Plugins.ofFields fields = .ok c.plugins
  server : ∃ fields, tree.required "server" = .ok fields ∧ Server.ofFields fields = .ok c.server
  npm : ∃ fields, tree.required "npm" = .ok fields ∧ Npm.ofFields fields = .ok c.npm
  hooks : tree.required "hooks" = .ok c.hooks
  overrides : tree.required "overrides" = .ok c.overrides
  fileListInterval : intervalOf tree = .ok c.fileListInterval
  usePolling : ∃ fields, tree.required "watcher" = .ok fields ∧
    fields.flag? ["watcher"] "usePolling" false = .ok c.usePolling
  persistent : tree.flag? [] "persistent" false = .ok c.persistent
  optimize : tree.flag? [] "optimize" false = .ok c.optimize
  sourceMaps : tree.flag? [] "sourceMaps" true = .ok c.sourceMaps
  notifications : tree.flag? [] "notifications" true = .ok c.notifications
  tree : c.tree = tree

theorem ofTree_eq_ok {environments : List String} {isProduction : Bool} {c : Configuration}
    (h : (ofTree environments isProduction tree).result = .ok c) :
    c.environments = environments ∧ c.isProduction = isProduction ∧ c.ReadFrom tree := by
  obtain ⟨pathFields, hpathFields, h⟩ := Reported.result_bind_eq_ok.mp h
  obtain ⟨paths, hpaths, h⟩ := Reported.result_bind_eq_ok.mp h
  obtain ⟨files, hfiles, h⟩ := Reported.result_bind_eq_ok.mp h
  obtain ⟨routing, hrouting, h⟩ := Reported.result_bind_eq_ok.mp h
  obtain ⟨conventionFields, hconventionFields, h⟩ := Reported.result_bind_eq_ok.mp h
  obtain ⟨conventions, hconventions, h⟩ := Reported.result_bind_eq_ok.mp h
  obtain ⟨moduleFields, hmoduleFields, h⟩ := Reported.result_bind_eq_ok.mp h
  obtain ⟨modules, hmodules, h⟩ := Reported.result_bind_eq_ok.mp h
  obtain ⟨pluginFields, hpluginFields, h⟩ := Reported.result_bind_eq_ok.mp h
  obtain ⟨plugins, hplugins, h⟩ := Reported.result_bind_eq_ok.mp h
  obtain ⟨serverFields, hserverFields, h⟩ := Reported.result_bind_eq_ok.mp h
  obtain ⟨server, hserver, h⟩ := Reported.result_bind_eq_ok.mp h
  obtain ⟨npmFields, hnpmFields, h⟩ := Reported.result_bind_eq_ok.mp h
  obtain ⟨npm, hnpm, h⟩ := Reported.result_bind_eq_ok.mp h
  obtain ⟨hooks, hhooks, h⟩ := Reported.result_bind_eq_ok.mp h
  obtain ⟨overrides, hoverrides, h⟩ := Reported.result_bind_eq_ok.mp h
  obtain ⟨fileListInterval, hinterval, h⟩ := Reported.result_bind_eq_ok.mp h
  obtain ⟨watcherFields, hwatcherFields, h⟩ := Reported.result_bind_eq_ok.mp h
  obtain ⟨usePolling, hpolling, h⟩ := Reported.result_bind_eq_ok.mp h
  obtain ⟨persistent, hpersistent, h⟩ := Reported.result_bind_eq_ok.mp h
  obtain ⟨optimize, hoptimize, h⟩ := Reported.result_bind_eq_ok.mp h
  obtain ⟨sourceMaps, hsourceMaps, h⟩ := Reported.result_bind_eq_ok.mp h
  obtain ⟨notifications, hnotifications, h⟩ := Reported.result_bind_eq_ok.mp h
  cases h
  exact ⟨rfl, rfl, {
    paths := ⟨pathFields, hpathFields, hpaths⟩
    routing := ⟨files, hfiles, hrouting⟩
    conventions := ⟨conventionFields, hconventionFields, hconventions⟩
    modules := ⟨moduleFields, hmoduleFields, hmodules⟩
    plugins := ⟨pluginFields, hpluginFields, hplugins⟩
    server := ⟨serverFields, hserverFields, hserver⟩
    npm := ⟨npmFields, hnpmFields, hnpm⟩
    hooks := hhooks
    overrides := hoverrides
    fileListInterval := hinterval
    usePolling := ⟨watcherFields, hwatcherFields, hpolling⟩
    persistent := hpersistent
    optimize := hoptimize
    sourceMaps := hsourceMaps
    notifications := hnotifications
    tree := rfl }⟩

namespace ReadFrom
open Mapping
variable {c : Configuration}

/-- A configuration whose parts can be read from a tree is read from it. -/
theorem result_ofTree (h : c.ReadFrom tree) : (ofTree c.environments c.isProduction tree).result = .ok c := by
  obtain ⟨pathFields, hpathFields, hpaths⟩ := h.paths
  obtain ⟨files, hfiles, hrouting⟩ := h.routing
  obtain ⟨conventionFields, hconventionFields, hconventions⟩ := h.conventions
  obtain ⟨moduleFields, hmoduleFields, hmodules⟩ := h.modules
  obtain ⟨pluginFields, hpluginFields, hplugins⟩ := h.plugins
  obtain ⟨serverFields, hserverFields, hserver⟩ := h.server
  obtain ⟨npmFields, hnpmFields, hnpm⟩ := h.npm
  obtain ⟨watcherFields, hwatcherFields, hpolling⟩ := h.usePolling
  refine Reported.result_bind_eq_ok.mpr ⟨_, hpathFields, Reported.result_bind_eq_ok.mpr ⟨_, hpaths, ?_⟩⟩
  refine Reported.result_bind_eq_ok.mpr ⟨_, hfiles, Reported.result_bind_eq_ok.mpr ⟨_, hrouting, ?_⟩⟩
  refine Reported.result_bind_eq_ok.mpr ⟨_, hconventionFields, Reported.result_bind_eq_ok.mpr ⟨_, hconventions, ?_⟩⟩
  refine Reported.result_bind_eq_ok.mpr ⟨_, hmoduleFields, Reported.result_bind_eq_ok.mpr ⟨_, hmodules, ?_⟩⟩
  refine Reported.result_bind_eq_ok.mpr ⟨_, hpluginFields, Reported.result_bind_eq_ok.mpr ⟨_, hplugins, ?_⟩⟩
  refine Reported.result_bind_eq_ok.mpr ⟨_, hserverFields, Reported.result_bind_eq_ok.mpr ⟨_, hserver, ?_⟩⟩
  refine Reported.result_bind_eq_ok.mpr ⟨_, hnpmFields, Reported.result_bind_eq_ok.mpr ⟨_, hnpm, ?_⟩⟩
  refine Reported.result_bind_eq_ok.mpr ⟨_, h.hooks, Reported.result_bind_eq_ok.mpr ⟨_, h.overrides, ?_⟩⟩
  refine Reported.result_bind_eq_ok.mpr ⟨_, h.fileListInterval, ?_⟩
  refine Reported.result_bind_eq_ok.mpr ⟨_, hwatcherFields, Reported.result_bind_eq_ok.mpr ⟨_, hpolling, ?_⟩⟩
  refine Reported.result_bind_eq_ok.mpr ⟨_, h.persistent, Reported.result_bind_eq_ok.mpr ⟨_, h.optimize, ?_⟩⟩
  refine Reported.result_bind_eq_ok.mpr ⟨_, h.sourceMaps, Reported.result_bind_eq_ok.mpr ⟨_, h.notifications, ?_⟩⟩
  rw [← h.tree]
  rfl

theorem find?_public (h : c.ReadFrom tree) : tree.find? ["paths", "public"] = some (.string c.paths.publicPath) := by
  obtain ⟨fields, hfields, hpaths⟩ := h.paths
  rw [find?_of_get? (required_eq_ok hfields)]
  exact (Paths.ofFields_eq_ok hpaths).1

theorem find?_config (h : c.ReadFrom tree) : tree.find? ["paths", "config"] = some (.string c.paths.config) := by
  obtain ⟨fields, hfields, hpaths⟩ := h.paths
  rw [find?_of_get? (required_eq_ok hfields)]
  exact (Paths.ofFields_eq_ok hpaths).2.1

theorem watched_ne_nil (h : c.ReadFrom tree) : c.paths.watched ≠ [] := by
  obtain ⟨fields, -, hpaths⟩ := h.paths
  exact (Paths.ofFields_eq_ok hpaths).2.2

/-- The settings of the server by their look-ups. -/
theorem find?_server (h : c.ReadFrom tree) :
    tree.find? ["server", "publicPath"] = some (.string c.server.publicPath) ∧
      (tree.find? ["server", "port"]).bind Value.nat? = some c.server.port.toNat ∧
      c.server.run = ((tree.find? ["server", "run"]).bind Value.bool?).getD false := by
  obtain ⟨fields, hfields, hserver⟩ := h.server
  have hfind := find?_of_get? (required_eq_ok hfields)
  rw [hfind, hfind, hfind]
  exact Server.ofFields_eq_ok hserver

end ReadFrom
end Configuration
end AssetPlan
