import AssetPlan.CommandLine
import AssetPlan.Proofs.Resolution.Conventions
import AssetPlan.Proofs.Resolution.File
import AssetPlan.Proofs.Routing.Conflicts

/-! # Reports show the whole routing table

A report lists the bundles of a routing table by asset type and entry, and its summary counts them in the nested
tables. That the count is the number of claimed output paths is a matter of the table: every claimed path stands in one
place of it, and it has no other bundles (`Routing.Holds`). -/

namespace AssetPlan

/-- Grouped by keys that cover them, items are in another order at most. -/
theorem flatMap_filter_perm {α κ : Type} [DecidableEq κ] {f : α → κ} {keys : List κ} {as : List α} (hkeys : keys.Nodup)
    (hcover : ∀ a ∈ as, f a ∈ keys) : (keys.flatMap fun key => as.filter fun a => f a = key).Perm as := by
  induction keys generalizing as with
  | nil =>
    have hnone : as = [] := List.eq_nil_iff_forall_not_mem.mpr fun a ha => List.not_mem_nil (hcover a ha)
    rw [hnone]
    exact .nil
  | cons key rest ih =>
    obtain ⟨hkey, hrest⟩ := List.nodup_cons.mp hkeys
    -- The groups of the other keys lie in what the group of the first leaves.
    have hothers : (rest.flatMap fun k => as.filter fun a => f a = k) =
        rest.flatMap fun k => (as.filter fun a => !decide (f a = key)).filter fun a => f a = k := by
      rw [List.flatMap_def, List.flatMap_def]
      refine congrArg List.flatten (List.map_congr_left fun k hk => ?_)
      rw [List.filter_filter]
      refine List.filter_congr fun a _ => ?_
      by_cases hak : f a = k
      · have hne : f a ≠ key := fun heq => hkey (heq ▸ hak ▸ hk)
        simp [hak, hak ▸ hne]
      · simp [hak]
    rw [List.flatMap_cons, hothers]
    have hleft : ∀ a ∈ as.filter fun a => !decide (f a = key), f a ∈ rest := by
      intro a ha
      obtain ⟨hmem, hne⟩ := List.mem_filter.mp ha
      exact (List.mem_cons.mp (hcover a hmem)).resolve_left (by simpa using hne)
    exact ((ih hrest hleft).append_left _).trans (List.filter_append_perm _ as)

namespace AssetType

theorem nodup_names {types : List AssetType} (h : types.Nodup) : (types.map name).Nodup := by
  refine List.pairwise_map.mpr (h.imp fun {a b} hne hname => hne (Option.some.inj ?_))
  rw [← ofName?_name a, hname, ofName?_name]

end AssetType

namespace Routing
open Declaration
variable {r : Routing} {ds : List Declaration}

/-- The bundles of a table in order: asset type, entry, output path and matcher. -/
def tuples (r : Routing) : List (AssetType × String × String × Matcher) :=
  (Entries.keys r.types).flatMap fun type => ((r.entries? type).getD []).flatMap fun (entry, bundles) =>
    bundles.map fun (output, matcher) => (type, entry, output, matcher)

theorem mem_keys_of_rows (type : AssetType) (h : r.rows type ≠ []) : type ∈ Entries.keys r.types := by
  refine Entries.has_iff_mem_keys.mp ?_
  unfold rows entries? at h
  unfold Entries.has
  cases hget : Entries.get? r.types type with
  | none =>
    rw [hget] at h
    exact absurd rfl h
  | some routes => rfl

theorem outputs_tuples (r : Routing) : r.tuples.map (·.2.2.1) =
    (Entries.keys r.types).flatMap fun type => (r.rows type).map (·.2.1) := by
  unfold tuples rows
  simp only [List.map_flatMap, List.map_map, Function.comp_def, Bundles.shown]

/-- The output paths of the bundles are those that were claimed. -/
theorem Holds.outputs_perm (h : r.Holds ds) : (r.tuples.map (·.2.2.1)).Perm r.outputPaths := by
  have hcover : ∀ d ∈ ds, d.type ∈ Entries.keys r.types := by
    intro d hd
    refine mem_keys_of_rows d.type ?_
    rw [h.rows]
    exact List.ne_nil_of_mem (List.mem_map_of_mem (List.mem_filter.mpr ⟨hd, decide_eq_true rfl⟩))
  have hgroups : (r.tuples.map (·.2.2.1)) =
      ((Entries.keys r.types).flatMap fun type => ds.filter (·.type = type)).map output := by
    rw [outputs_tuples, List.map_flatMap]
    simp only [h.rows, List.map_map]
    rfl
  rw [hgroups, h.outputPaths]
  exact (flatMap_filter_perm h.types hcover).map output

theorem Holds.wellKeyed_bundles (h : r.Holds ds) (hds : (ds.map output).Nodup) {type : AssetType} {e : String × Bundles}
    (he : e ∈ (r.entries? type).getD []) : Entries.WellKeyed e.2 := by
  have hget : r.entryBundles? type e.1 = some e.2 := by
    rw [entryBundles?_eq]
    exact Entries.get?_of_mem (h.entries type) he
  have hbundles := h.bundles type e.1
  rw [hget, Option.getD_some] at hbundles
  unfold Entries.WellKeyed
  rw [keys_of_shown hbundles]
  exact hds.sublist (List.filter_sublist.map output)

theorem routes_of_mem (hw : Entries.WellKeyed r.types) {e : AssetType × TypeRoutes} (he : e ∈ r.types) :
    (r.entries? e.1).getD [] = e.2.entries ∧ r.pluginHelpers e.1 = e.2.pluginHelpers := by
  unfold entries? pluginHelpers
  rw [Entries.get?_of_mem hw he]
  exact ⟨rfl, rfl⟩

/-- Looking up the asset types one by one goes through the table. -/
theorem tuples_eq (hw : Entries.WellKeyed r.types) : r.tuples = r.types.flatMap fun e => e.2.entries.flatMap fun en =>
    en.2.map fun b => (e.1, en.1, b.1, b.2) := by
  unfold tuples Entries.keys
  rw [List.flatMap_map, List.flatMap_def, List.flatMap_def]
  refine congrArg List.flatten (List.map_congr_left fun e he => ?_)
  rw [(routes_of_mem hw he).1]

end Routing

namespace Resolution

/-- The resolutions that succeed: of a tree, of a file, and of the file that a path without extension stands for. -/
inductive Successful : Resolution → Prop
  | tree {defaults : Defaults} {options : Options} {tree : Value} {resolution : Resolution} (hw : tree.WellKeyed)
    (h : ofTree defaults options tree = .ok resolution) : Successful resolution
  | file {files : FileSystem} {path : String} {options : Options} {resolution : Resolution}
    (h : ofFile files path options = .ok resolution) : Successful resolution
  | project {files : FileSystem} {base : String} {options : Options} {resolution : Resolution}
    (h : ofProject files base options = .ok resolution) : Successful resolution

variable {defaults : Defaults} {options : Options} {tree : Value} {resolution : Resolution}

theorem routing_of_ofTree (hw : tree.WellKeyed) (h : ofTree defaults options tree = .ok resolution) :
    ∃ ds, resolution.configuration.routing.Holds ds ∧ (ds.map Declaration.output).Nodup := by
  obtain ⟨config, filled, final, rfl, -, hfilled, hcascade, hread⟩ := ofTree_eq_ok h
  obtain ⟨-, -, hread⟩ := Configuration.ofTree_eq_ok hread
  have hmerged : (merged defaults options config).result = .ok final := by rw [merged_eq hfilled hcascade]
  obtain ⟨files, hfiles, hrouting⟩ := hread.routing
  have hwf : (Value.mapping files).WellKeyed := (wellKeyed_merged hw hmerged).get? (Mapping.required_eq_ok hfiles)
  exact ⟨_, Routing.ofFiles_holds hwf hrouting, nodup_map_firstsBy _⟩

theorem routing_of_ofFile {files : FileSystem} {path : String} (h : ofFile files path options = .ok resolution) :
    ∃ ds, resolution.configuration.routing.Holds ds ∧ (ds.map Declaration.output).Nodup := by
  obtain ⟨loaded, r, hload, hr, rfl⟩ := ofFile_eq_ok h
  have hrouting := routing_of_ofTree (Source.wellKeyed_of_load hload) hr
  exact hrouting

theorem Successful.routing (h : resolution.Successful) :
    ∃ ds, resolution.configuration.routing.Holds ds ∧ (ds.map Declaration.output).Nodup := by
  cases h with
  | tree hw h => exact routing_of_ofTree hw h
  | file h => exact routing_of_ofFile h
  | project h =>
    obtain ⟨path, -, h⟩ := bind_eq_ok.mp h
    exact routing_of_ofFile h

end Resolution

namespace Report
variable {resolution : Resolution}

/-- The bundles that a report shows, in order: asset type, entry, output path and the description of the matcher. -/
def tuples (r : Report) : List (String × String × String × String) :=
  r.routes.flatMap fun (type, entries) => entries.flatMap fun (entry, bundles) =>
    bundles.map fun (output, description) => (type, entry, output, description)

theorem bundleCount_eq (r : Report) : r.bundleCount = r.tuples.length := by
  have hbundles : r.tuples.map (·.2.2) = (r.routes.flatMap (·.2)).flatMap (·.2) := by
    unfold tuples
    simp only [List.flatMap_assoc, List.map_flatMap, List.map_map, Function.comp_def, List.map_id']
  calc r.bundleCount
    _ = ((r.routes.flatMap (·.2)).map (·.2.length)).sum := List.sum_eq_foldl_nat.symm
    _ = ((r.routes.flatMap (·.2)).flatMap (·.2)).length := List.length_flatMap.symm
    _ = (r.tuples.map (·.2.2)).length := by rw [hbundles]
    _ = r.tuples.length := List.length_map _

theorem tuples_ofResolution (hw : Entries.WellKeyed resolution.configuration.routing.types) :
    (ofResolution resolution).tuples = resolution.configuration.routing.tuples.map fun (type, entry, output, matcher) =>
      (type.name, entry, output, matcher.describe) := by
  rw [Routing.tuples_eq hw]
  unfold tuples ofResolution describeRouting describeBundles
  simp only [List.flatMap_map, List.map_flatMap, List.map_map, Function.comp_def]

/-- No key is twice in the described table. -/
theorem keyed_describeRouting {r : Routing} {ds : List Declaration} (h : r.Holds ds)
    (hds : (ds.map Declaration.output).Nodup) :
    Entries.KeyedWith (Entries.KeyedWith Entries.WellKeyed) (describeRouting r) := by
  refine ⟨?_, fun e he => ?_⟩
  · have hnames : Entries.keys (describeRouting r) = (Entries.keys r.types).map AssetType.name := by
      unfold Entries.keys describeRouting
      rw [List.map_map, List.map_map]
      rfl
    rw [Entries.WellKeyed, hnames]
    exact AssetType.nodup_names h.types
  · obtain ⟨⟨type, routes⟩, hmem, rfl⟩ := List.mem_map.mp he
    have hroutes := (Routing.routes_of_mem h.types hmem).1
    have hentries : Entries.KeyedWith Entries.WellKeyed routes.entries := by
      rw [← hroutes]
      exact ⟨h.entries type, fun e he => h.wellKeyed_bundles hds he⟩
    refine hentries.mapValues (f := describeBundles) fun bundles hbundles => ?_
    unfold Entries.WellKeyed Entries.keys describeBundles
    rw [List.map_map]
    exact hbundles

/-- What a report shows of a resolution. -/
structure Shows (report : Report) (resolution : Resolution) : Prop where
  /-- The bundles of the routing table with the descriptions of their matchers, in their order. -/
  tuples : report.tuples = resolution.configuration.routing.tuples.map fun (type, entry, output, matcher) =>
    (type.name, entry, output, matcher.describe)
  keyed : Entries.KeyedWith (Entries.KeyedWith Entries.WellKeyed) report.routes
  outputs : (report.tuples.map (·.2.2.1)).Perm resolution.configuration.routing.outputPaths
  bundleCount : report.bundleCount = resolution.configuration.routing.outputPaths.length
  /-- Every asset type of the table once, with the bundles that receive the helper code. -/
  pluginHelpers : report.pluginHelpers = (Entries.keys resolution.configuration.routing.types).map fun type =>
    (type.name, resolution.configuration.routing.pluginHelpers type)
  pluginHelpersKeyed : Entries.WellKeyed report.pluginHelpers
  diagnostics : report.diagnostics = resolution.diagnostics

theorem shows_of_holds {ds : List Declaration} (h : resolution.configuration.routing.Holds ds)
    (hds : (ds.map Declaration.output).Nodup) : (ofResolution resolution).Shows resolution := by
  have htuples := tuples_ofResolution h.types
  have houtputs : ((ofResolution resolution).tuples.map (·.2.2.1)).Perm resolution.configuration.routing.outputPaths := by
    rw [htuples, List.map_map]
    exact h.outputs_perm
  have hhelpers : (ofResolution resolution).pluginHelpers = (Entries.keys resolution.configuration.routing.types).map
      fun type => (type.name, resolution.configuration.routing.pluginHelpers type) := by
    unfold Entries.keys
    rw [List.map_map]
    exact List.map_congr_left fun e he => congrArg (e.1.name, ·) (Routing.routes_of_mem h.types he).2.symm
  refine ⟨htuples, keyed_describeRouting h hds, houtputs, ?_, hhelpers, ?_, rfl⟩
  · rw [bundleCount_eq, ← List.length_map, houtputs.length_eq]
  · rw [hhelpers, Entries.WellKeyed, Entries.keys, List.map_map]
    exact AssetType.nodup_names h.types

/-- The report of every successful resolution shows its whole routing table. Its summary counts the output paths that
    the table has claimed and the diagnostics, which `check` prints one by one before it. -/
theorem ofResolution_shows (h : resolution.Successful) : (ofResolution resolution).Shows resolution ∧
    (ofResolution resolution).summary = "config OK: environments [" ++
      (if resolution.configuration.environments.isEmpty then "none"
        else ", ".intercalate resolution.configuration.environments) ++
      "], " ++ Nat.repr resolution.configuration.routing.outputPaths.length ++ " output bundle(s), public path '" ++
      resolution.configuration.paths.publicPath ++ "'" ++
      (if resolution.diagnostics.isEmpty then ""
        else ", " ++ Nat.repr resolution.diagnostics.length ++ " warning(s)") ∧
    ∃ warnings, (CommandLine.succeeded .check resolution).output =
      warnings ++ [(ofResolution resolution).summary] ∧ warnings.length = resolution.diagnostics.length := by
  obtain ⟨ds, hds, hnodup⟩ := h.routing
  have hshows := shows_of_holds hds hnodup
  refine ⟨hshows, ?_, _, rfl, List.length_map _⟩
  rw [← hshows.bundleCount]
  rfl

/-- A project whose sections contest output paths. -/
def contestedProject : Value := .mapping [("files", .mapping Routing.contestedFiles)]

theorem ofResolution_shows_contestedProject : ∃ resolution,
    Resolution.ofTree {} { named := ["ci"] } contestedProject = .ok resolution ∧
    (ofResolution resolution).Shows resolution ∧ (ofResolution resolution).bundleCount = 4 ∧
    (ofResolution resolution).summary =
      "config OK: environments [ci], 4 output bundle(s), public path 'public', 6 warning(s)" := by
  have hfacts : (Resolution.ofTree {} { named := ["ci"] } contestedProject).toOption.map (fun r =>
      (r.configuration.environments, r.configuration.routing.outputPaths.length, r.configuration.paths.publicPath,
        r.diagnostics.length)) = some (["ci"], 4, "public", 6) := by decide +kernel
  cases h : Resolution.ofTree {} { named := ["ci"] } contestedProject with
  | error e =>
    rw [h] at hfacts
    cases hfacts
  | ok resolution =>
    obtain ⟨hshows, hsummary, -⟩ := ofResolution_shows (.tree (by decide +kernel) h)
    rw [h] at hfacts
    simp only [Except.toOption, Option.map_some, Option.some.injEq, Prod.mk.injEq] at hfacts
    obtain ⟨henvironments, houtputs, hpublic, hdiagnostics⟩ := hfacts
    have hwarned : resolution.diagnostics.isEmpty = false := by
      refine List.isEmpty_eq_false_iff.mpr fun hnone => ?_
      rw [hnone] at hdiagnostics
      cases hdiagnostics
    refine ⟨resolution, rfl, hshows, hshows.bundleCount.trans houtputs, ?_⟩
    rw [hsummary, henvironments, houtputs, hpublic, hwarned, hdiagnostics]
    decide

end Report
end AssetPlan
