import AssetPlan.Proofs.Configuration.Unset
import AssetPlan.Proofs.Resolution.Rejection

/-! # Null means unset

A null entry of the tree, of a section that is filled with defaults, or among the settings of an asset type counts as
one that is missing. Without such entries a tree resolves if it did with them, to the same settings and with the same
diagnostics: the trees are taken for the same as they are read, and every phase keeps them so. -/

namespace AssetPlan
open KeyPath Mapping
variable {drop : List String → Bool} {config files : Mapping}

/-- The lists of plugins. -/
def pluginLists : List String := ["on", "off", "only"]

/-- The chains of keys that may as well lead to null as to nothing. -/
def optionalPath : List String → Bool
  | [_] => true
  | [key, setting] => lenientSections.contains key && (key != "plugins" || pluginLists.contains setting)
  | ["files", name, key] => (AssetType.ofName? name).isSome && Routing.sectionKeys.contains key
  | _ => false

/-- Only null entries at optional chains of keys are dropped. -/
def DropsNulls (drop : List String → Bool) (tree : Value) : Prop :=
  ∀ q, drop q = true → optionalPath q = true ∧ tree.find? q = some .null

theorem mem_of_optionalPath {key setting : String} (h : optionalPath [key, setting] = true) : key ∈ lenientSections :=
  List.contains_iff_mem.mp (Bool.and_eq_true_iff.mp h).1

/-- Only the settings of asset types are below a section of a section. -/
theorem eq_of_optionalPath {key setting next : String} {q : List String}
    (h : optionalPath (key :: setting :: next :: q) = true) : key = "files" ∧ q = [] := by
  unfold optionalPath at h
  split at h
  · rename_i heq
    cases heq
  · rename_i heq
    cases heq
  · rename_i heq
    cases heq
    exact ⟨rfl, rfl⟩
  · cases h

/-- The advice on sections of `files` that are kept with their `defaultExtension`. -/
theorem Legacy.fileAdvice_prune (hfiles : drop ["files"] = false) (hname : ∀ name, drop ["files", name] = false)
    (hextension : ∀ name, drop ["files", name, "defaultExtension"] = false) (m : Mapping) :
    fileAdvice (m.prune drop) = fileAdvice m := by
  unfold fileAdvice
  rw [child_prune hfiles]
  induction m.child "files" with
  | nil => rfl
  | cons entry rest ih =>
    obtain ⟨name, v⟩ := entry
    rw [prune_cons_kept (hname name), List.flatMap_cons, List.flatMap_cons, ih]
    cases v with
    | mapping fields =>
      have hkept : (Entries.get? (Mapping.prune (below (below drop "files") name) fields) "defaultExtension").isSome =
          (Entries.get? fields "defaultExtension").isSome := has_prune (hextension name) fields
      exact congrArg (adviceIf · _ ++ _) hkept
    | _ => rfl

/-! ### Trees as they are read -/

theorem Routing.allAlike_prune (hname : ∀ name, drop [name] = false)
    (hnull : ∀ name fields, (name, Value.mapping fields) ∈ files → ∀ key, drop [name, key] = true →
      Entries.get? fields key = some .null)
    (hbelow : ∀ name key q, q ≠ [] → drop (name :: key :: q) = false) : AllAlike files (files.prune drop) := by
  induction files with
  | nil => exact .nil
  | cons entry rest ih =>
    obtain ⟨name, v⟩ := entry
    rw [prune_cons_kept (hname name)]
    refine .cons name ?_ (ih fun name fields hmem => hnull name fields (List.mem_cons_of_mem _ hmem))
    cases v with
    | mapping fields =>
      have hset : SameSet fields (Mapping.prune (below drop name) fields) :=
        sameSet_prune (hnull name fields List.mem_cons_self) (hbelow name)
      exact .fields fun key _ => sameSet_iff.mp hset key
    | _ => exact .refl _

namespace DropsNulls
variable {key : String} (h : DropsNulls drop (.mapping config))
include h

theorem eq_false {q : List String} (hq : optionalPath q = false) : drop q = false :=
  Bool.eq_false_iff.mpr fun hdrop => Bool.eq_false_iff.mp hq (h q hdrop).1

theorem get?_eq_null (hdrop : drop [key] = true) : Entries.get? config key = some .null :=
  (find?_singleton config key).symm.trans (h _ hdrop).2

theorem files_kept (hfiles : config.hasValue "files" = true) : drop ["files"] = false := by
  refine Bool.eq_false_iff.mpr fun hdrop => ?_
  rw [← isSome_set?, set?_of_null (h.get?_eq_null hdrop)] at hfiles
  cases hfiles

theorem allAlike_files (hw : (Value.mapping config).WellKeyed)
    (hfiles : Entries.get? config "files" = some (.mapping files)) :
    Routing.AllAlike files (files.prune (below drop "files")) := by
  have hkept : ∀ name, drop ["files", name] = false := fun name => h.eq_false rfl
  refine Routing.allAlike_prune hkept (fun name fields hmem key hdrop => ?_) fun name key q hq => ?_
  · have hname : Entries.get? files name = some (.mapping fields) := Entries.get?_of_mem (hw.get? hfiles).1 hmem
    have hfound : config.find? ["files", name, key] = some .null := (h _ hdrop).2
    rw [find?_cons_eq, hfiles] at hfound
    exact (find?_of_get? hname key).symm.trans hfound
  · exact Bool.eq_false_iff.mpr fun hdrop => hq (eq_of_optionalPath (h _ hdrop).1).2

theorem sameSet_section {fields : Mapping} (hfields : Entries.get? config key = some (.mapping fields))
    (hfiles : key ≠ "files") : SameSet fields (fields.prune (below drop key)) := by
  refine sameSet_prune (fun setting hdrop => ?_) fun setting q hq => ?_
  · exact (find?_of_get? hfields setting).symm.trans (h _ hdrop).2
  · cases q with
    | nil => exact absurd rfl hq
    | cons next q => exact Bool.eq_false_iff.mpr fun hdrop => hfiles (eq_of_optionalPath (h _ hdrop).1).1

/-- Elsewhere nothing is dropped below the top. -/
theorem below_never (hkey : drop [key] = false) (hsection : key ∉ lenientSections) (hfiles : key ≠ "files")
    (q : List String) : below drop key q = false := by
  refine Bool.eq_false_iff.mpr fun hdrop => ?_
  match q with
  | [] => exact Bool.eq_false_iff.mp hkey hdrop
  | [_] => exact hsection (mem_of_optionalPath (h _ hdrop).1)
  | _ :: _ :: _ => exact hfiles (eq_of_optionalPath (h _ hdrop).1).1

/-- A tree without nulls is taken for the one with them. -/
theorem treeAlike (hw : (Value.mapping config).WellKeyed) : TreeAlike config (config.prune drop) := by
  intro key
  cases hkey : drop [key] with
  | true =>
    left
    rw [set?_prune_dropped hkey, set?_of_null (h.get?_eq_null hkey)]
  | false =>
    rw [set?_prune hkey]
    cases hset : config.set? key with
    | none => exact .inl rfl
    | some v =>
      cases v with
      | mapping fields =>
        have hfields := (set?_eq_some.mp hset).1
        by_cases hfiles : key = "files"
        · subst hfiles
          exact .inr ⟨_, _, rfl, rfl, .files (h.allAlike_files hw hfields)⟩
        by_cases hsection : key ∈ lenientSections
        · exact .inr ⟨_, _, rfl, rfl, .set hsection (h.sameSet_section hfields hfiles)⟩
        · exact .inl (congrArg some (Value.prune_of_never (h.below_never hkey hsection hfiles)).symm)
      | _ => exact .inl rfl

/-- And it is given the same advice. -/
theorem advice_eq (hw : (Value.mapping config).WellKeyed) (hfiles : config.hasValue "files" = true) :
    Legacy.advice (config.prune drop) = Legacy.advice config := by
  have halike := h.treeAlike hw
  have hextension : ∀ name, drop ["files", name, "defaultExtension"] = false := fun name =>
    h.eq_false (Bool.and_false _)
  have hfileAdvice : Legacy.fileAdvice (config.prune drop) = Legacy.fileAdvice config :=
    Legacy.fileAdvice_prune (h.files_kept hfiles) (fun name => h.eq_false rfl) hextension config
  unfold Legacy.advice
  rw [Legacy.pathAdvice_congr (halike.child (by decide)), hfileAdvice, halike.hasValue_eq, halike.hasValue_eq,
    halike.hasValue_eq]

end DropsNulls

/-! ### The end of a cascade -/

theorem Options.readsSet_closingSteps (o : Options) : ∀ s ∈ o.closingSteps, s.ReadsSet Defaults.readSettings := by
  have hpublic : ∀ s ∈ o.publicSteps, s.ReadsSet Defaults.readSettings := by
    intro s hs
    obtain ⟨path, -, rfl⟩ := List.mem_map.mp hs
    exact fun _ _ _ => rfl
  have hserver : ∀ s ∈ o.serverSteps, s.ReadsSet Defaults.readSettings := by
    intro s hs
    unfold serverSteps at hs
    split at hs
    · rcases List.mem_cons.mp hs with rfl | hs
      · exact fun _ _ _ => rfl
      · obtain ⟨port, -, rfl⟩ := List.mem_map.mp hs
        exact fun _ _ _ => rfl
    · cases hs
  unfold closingSteps layerSteps
  simp only [List.forall_mem_append, List.forall_mem_cons]
  refine ⟨⟨⟨hpublic, hserver⟩, fun _ _ _ => rfl, nofun⟩, Defaults.readsSet_served.mono (by decide), ?_⟩
  split
  · exact nofun
  · exact List.forall_mem_singleton.mpr fun _ _ _ => rfl

theorem TreeAlike.closed {m e final final' : Mapping} (h : TreeAlike m e) (o : Options)
    (hrun : Step.run m o.closingSteps = (final, none)) (hrun' : Step.run e o.closingSteps = (final', none)) :
    TreeAlike final final' := by
  have htargets : ∀ target ∈ Options.closingTargets, target.head? ≠ some "files" := by decide
  have hfold : SameSuccess TreeAlike (o.closingSteps.foldlM Step.apply m) (o.closingSteps.foldlM Step.apply e) :=
    h.run o.readsSet_closingSteps fun s hs => htargets _ (Options.closing_closingSteps o s hs).target_mem
  rw [Step.foldlM_apply, Step.foldlM_apply, hrun, hrun'] at hfold
  cases hfold
  assumption

namespace Resolution
open Defaults
variable {o : Options}

/-- Two resolutions with the same settings and diagnostics. -/
structure SameSettings (r r' : Resolution) : Prop where
  configuration : r.configuration.SameSettings r'.configuration
  diagnostics : r'.diagnostics = r.diagnostics
  source : r'.source = r.source

/-- The merged trees of a project with and without nulls are interchangeable. -/
theorem merged_alike (h : DropsNulls drop (.mapping config)) (hw : (Value.mapping config).WellKeyed)
    (he : o.environments = []) (d : Defaults) : SameSuccess Configuration.Interchangeable (merged d o config).result
      (merged d o (config.prune drop)).result := by
  have hraw := h.treeAlike hw
  have hmigrated : TreeAlike (Legacy.migrate config) (Legacy.migrate (config.prune drop)) :=
    Legacy.migrate_alike hraw (hraw.set?_eq (by decide) (by decide)) (hraw.set?_eq (by decide) (by decide))
  have hwell := Legacy.wellKeyed_migrate hw
  have hpruned : (Value.mapping (Mapping.prune drop config)).WellKeyed := hw.prune
  have hwell' := Legacy.wellKeyed_migrate hpruned
  rw [result_merged, result_merged]
  refine ((d.apply_alike hmigrated _).imp fun c c' hc hc' halike => And.intro halike (And.intro hc hc')).bind ?_
  rintro c c' ⟨halike, hc, hc'⟩
  obtain ⟨final, hrun, happly, hfilled⟩ := exists_closed rfl he (filled_of_apply hc)
  obtain ⟨final', hrun', happly', -⟩ := exists_closed rfl he (filled_of_apply hc')
  obtain ⟨-, v, hinterval, hnull⟩ := hfilled (.fill [] "fileListInterval" (constant (.ofNat d.fileListInterval.toNat)))
    (by simp [steps, buildSteps])
  rw [happly, happly']
  refine .ok ⟨halike.closed o hrun hrun', Step.wellKeyed_run (neat_closingSteps o) (wellKeyed_of_apply hwell hc) hrun,
    Step.wellKeyed_run (neat_closingSteps o) (wellKeyed_of_apply hwell' hc') hrun', ?_⟩
  exact hasValue_iff.mpr ⟨v, (find?_singleton _ _).symm.trans hinterval, hnull⟩

/-- Null means unset. Without environments a tree resolves just if it does without its nulls at optional chains of
    keys, and then to the same settings with the same diagnostics. -/
theorem ofTree_dropsNulls {tree : Value} (hw : tree.WellKeyed) (he : o.environments = []) (h : DropsNulls drop tree)
    (d : Defaults) : SameSuccess SameSettings (ofTree d o tree) (ofTree d o (tree.prune drop)) := by
  cases tree with
  | mapping config =>
    have hfiles : hasValue config "files" = hasValue (Mapping.prune drop config) "files" :=
      (h.treeAlike hw).hasValue_eq "files"
    rw [Value.prune_mapping]
    cases hset : hasValue config "files" with
    | false =>
      rw [ofTree_notProject hset, ofTree_notProject (hfiles.symm.trans hset)]
      exact .error _ _
    | true =>
      rw [ofTree_mapping hset, ofTree_mapping (hfiles.symm.trans hset), h.advice_eq hw hset]
      refine (merged_alike h hw he d).bind fun t t' halike => ?_
      obtain ⟨hdiagnostics, hread⟩ := halike.ofTree_alike o.environments o.isProduction
      rw [hdiagnostics]
      exact hread.map fun c c' hc => ⟨hc, rfl, rfl⟩
  | _ => exact .error _ _

/-- A project with null in all kinds of places. -/
def hollowProject : Value := .mapping [
  ("paths", .mapping [("root", .string "."), ("app", .null), ("watched", .null), ("ignored", .null)]),
  ("files", .mapping [("javascripts", .mapping [("entryPoints", .null), ("joinTo", .string "app.js")])]),
  ("conventions", .mapping [("assets", .null), ("own", .string "own")]),
  ("plugins", .mapping [("on", .null), ("off", .list [.string "lint"]), ("lint", .null)]),
  ("optimize", .null),
  ("server", .mapping [("port", .null)])]

/-- The project without them, but for the settings of a plugin. -/
def fullProject : Value := .mapping [
  ("paths", .mapping [("root", .string ".")]),
  ("files", .mapping [("javascripts", .mapping [("joinTo", .string "app.js")])]),
  ("conventions", .mapping [("own", .string "own")]),
  ("plugins", .mapping [("off", .list [.string "lint"]), ("lint", .null)]),
  ("server", .mapping [])]

/-- The chains of keys at which the project has null. -/
def hollowPaths : List (List String) := [
  ["paths", "app"], ["paths", "watched"], ["paths", "ignored"], ["files", "javascripts", "entryPoints"],
  ["conventions", "assets"], ["plugins", "on"], ["optimize"], ["server", "port"]]

theorem ofTree_dropsNulls_hollowProject : ∃ r r', ofTree {} {} hollowProject = .ok r ∧ ofTree {} {} fullProject = .ok r' ∧
    SameSettings r r' := by
  have hok : (ofTree {} {} hollowProject).isOk = true := by decide +kernel
  have hok' : (ofTree {} {} fullProject).isOk = true := by decide +kernel
  obtain ⟨r, hr⟩ := exists_ok_of_isOk hok
  obtain ⟨r', hr'⟩ := exists_ok_of_isOk hok'
  have hdrops : DropsNulls (hollowPaths.contains ·) hollowProject := by
    intro q hq
    have hmem : q ∈ hollowPaths := List.contains_iff_mem.mp hq
    simp only [hollowPaths, List.mem_cons, List.not_mem_nil, or_false] at hmem
    rcases hmem with rfl | rfl | rfl | rfl | rfl | rfl | rfl | rfl <;> exact ⟨rfl, rfl⟩
  have hpruned : hollowProject.prune (hollowPaths.contains ·) = fullProject := by
    simp [hollowProject, fullProject, hollowPaths, Value.prune, Mapping.prune, Value.pruneEntries, below]
  have hsame := ofTree_dropsNulls (o := {}) (by decide) (by decide) hdrops {}
  rw [hpruned, hr, hr'] at hsame
  cases hsame with
  | ok hsame => exact ⟨r, r', hr, hr', hsame⟩

end Resolution
end AssetPlan
