import AssetPlan.Proofs.Cascade.Pruned
import AssetPlan.Proofs.Configuration.Pruned
import AssetPlan.Proofs.Defaults.Pruned
import AssetPlan.Proofs.Legacy
import AssetPlan.Proofs.Resolution

/-! # Legacy fields are inert

Of the legacy fields only `onCompile` and `paths.ignored` move elsewhere. The others are reported and never read,
so a project resolves without them as it does with them. No phase sees them: they lie beside the settings that are
filled, merged and read, and the snapshot carries them along to where no setting is. -/

namespace AssetPlan
open KeyPath Mapping

namespace MergePolicy

/-- Whether a described path and a path are the same as far as both go. -/
def meets : List String → List String → Bool
  | want :: wants, key :: path => (want == "*" || want == key) && meets wants path
  | _, _ => true

theorem meets_of_fits {wants path q : List String} (hq : fits wants q = true) (h : q <+: path ∨ path <+: q) :
    meets wants path = true := by
  induction wants generalizing q path with
  | nil => rfl
  | cons want wants ih =>
    cases q with
    | nil => cases hq
    | cons key q =>
      obtain ⟨hkey, hrest⟩ := Bool.and_eq_true_iff.mp hq
      cases path with
      | nil => rfl
      | cons first path =>
        rw [List.cons_prefix_cons, List.cons_prefix_cons] at h
        rcases h with ⟨rfl, h⟩ | ⟨rfl, h⟩
        · exact Bool.and_eq_true_iff.mpr ⟨hkey, ih hrest (.inl h)⟩
        · exact Bool.and_eq_true_iff.mpr ⟨hkey, ih hrest (.inr h)⟩

end MergePolicy

namespace Legacy
open MergePolicy
variable {drop : List String → Bool} {m : Mapping} {path : List String}

/-- The legacy fields that are reported and never read; `*` stands for any key. -/
def inertFields : List (List String) := [
  ["rootPath"], ["buildPath"], ["paths", "app"], ["paths", "test"], ["paths", "vendor"], ["paths", "assets"],
  ["files", "*", "defaultExtension"]]

/-- Whether a legacy field that is never read stands at the end of a chain of keys. -/
def inert (q : List String) : Bool := inertFields.any (fits · q)

/-- The inert fields of a tree, and those in the snapshot of its sections. -/
def inertOrSaved (q : List String) : Bool :=
  inert q || ["overrides", Cascade.snapshotName].isPrefixOf q && inert (q.drop 2)

theorem inertOrSaved_of_inert {q : List String} (h : inert q = true) : inertOrSaved q = true := by
  unfold inertOrSaved
  rw [h, Bool.true_or]

theorem whole_inertOrSaved (h : ∀ wants ∈ inertFields, meets wants path = false ∧
    meets ("overrides" :: Cascade.snapshotName :: wants) path = false) : Whole inertOrSaved path := by
  intro q hq
  suffices hmeets : ∃ wants ∈ inertFields,
      fits wants q = true ∨ fits ("overrides" :: Cascade.snapshotName :: wants) q = true by
    obtain ⟨wants, hmem, hfits⟩ := hmeets
    obtain ⟨hplain, hsaved⟩ := h wants hmem
    constructor
    · intro hp
      rcases hfits with hfits | hfits
      · exact absurd (meets_of_fits hfits (.inl hp)) (Bool.eq_false_iff.mp hplain)
      · exact absurd (meets_of_fits hfits (.inl hp)) (Bool.eq_false_iff.mp hsaved)
    · intro hp
      rcases hfits with hfits | hfits
      · exact absurd (meets_of_fits hfits (.inr hp)) (Bool.eq_false_iff.mp hplain)
      · exact absurd (meets_of_fits hfits (.inr hp)) (Bool.eq_false_iff.mp hsaved)
  rcases Bool.or_eq_true_iff.mp hq with hq | hq
  · obtain ⟨wants, hmem, hfits⟩ := List.any_eq_true.mp hq
    exact ⟨wants, hmem, .inl hfits⟩
  · obtain ⟨hsaved, hq⟩ := Bool.and_eq_true_iff.mp hq
    obtain ⟨rest, rfl⟩ := List.isPrefixOf_iff_prefix.mp hsaved
    obtain ⟨wants, hmem, hfits⟩ := List.any_eq_true.mp hq
    refine ⟨wants, hmem, .inr ?_⟩
    simpa [fits] using hfits

theorem kept_inertOrSaved (h : ∀ n ≤ path.length, inertOrSaved (path.take n) = false) : Kept inertOrSaved path := by
  intro q hq hp
  have hnone := h q.length hp.length_le
  rw [← List.prefix_iff_eq_take.mp hp, hq] at hnone
  cases hnone

/-! ### The phases do not see inert fields -/

theorem unread_cascade : Cascade.Unread inertOrSaved where
  routing := by
    intro q hq pair hpair
    obtain ⟨type, rfl⟩ := cascade_replaces_iff.mp hq
    obtain rfl := List.mem_singleton.mp hpair
    exact ⟨rfl, rfl⟩
  plugins := whole_inertOrSaved (by decide)
  server := whole_inertOrSaved (by decide)
  persistent := whole_inertOrSaved (by decide)
  publicPath := whole_inertOrSaved (by decide)
  overrides environment := kept_inertOrSaved fun n hn => by
    match n, hn with
    | 0, _ | 1, _ => rfl
    | 2, _ => 
      show inertOrSaved ["overrides", environment] = false
      simp [inertOrSaved, inert, inertFields, fits]
  snapshot key q hne := by
    have hsaved : inert ("overrides" :: Cascade.snapshotName :: key :: q) = false := rfl
    unfold inertOrSaved
    rw [hsaved]
    simp [List.isPrefixOf, Ne.symm hne]
  layers environment q hq := by
    refine inertOrSaved_of_inert ?_
    rcases Bool.or_eq_true_iff.mp hq with hq | hq
    · simp [inert, inertFields, fits] at hq
    · exact (Bool.and_eq_true_iff.mp hq).2

theorem unread_configuration : Configuration.Unread inertOrSaved where
  paths key hkey := whole_inertOrSaved ((by decide : ∀ key ∈ ["root", "public", "watched", "config", "packageConfig",
    "bowerConfig"], ∀ wants ∈ inertFields, meets wants ["paths", key] = false ∧
      meets ("overrides" :: Cascade.snapshotName :: wants) ["paths", key] = false) key hkey)
  files name key hkey := whole_inertOrSaved fun wants hwants => by
    have hkeys : key = "joinTo" ∨ key = "pluginHelpers" ∨ key = "entryPoints" := by
      simpa [Routing.sectionKeys] using hkey
    revert wants
    rcases hkeys with rfl | rfl | rfl <;> simp [inertFields, meets]
  others key hkey := whole_inertOrSaved ((by decide : ∀ key ∈ ["conventions", "modules", "plugins", "server", "npm",
    "hooks", "watcher", "fileListInterval", "persistent", "optimize", "sourceMaps", "notifications"],
      ∀ wants ∈ inertFields, meets wants [key] = false ∧
        meets ("overrides" :: Cascade.snapshotName :: wants) [key] = false) key hkey)
  overrides := rfl

theorem whole_readSettings : ∀ q ∈ Defaults.readSettings, Whole inertOrSaved [q.1, q.2] := fun q hq =>
  whole_inertOrSaved ((by decide : ∀ q ∈ Defaults.readSettings, ∀ wants ∈ inertFields,
    meets wants [q.1, q.2] = false ∧ meets ("overrides" :: Cascade.snapshotName :: wants) [q.1, q.2] = false) q hq)

theorem overlooks_outlines (loaded persistent : Bool) :
    ∀ s ∈ Defaults.outlines loaded persistent, Step.Overlooks inertOrSaved s := by
  have hcheck : ∀ loaded persistent, ∀ s ∈ Defaults.outlines loaded persistent,
      (∀ n ≤ s.2.length, inertOrSaved (s.2.take n) = false) ∧ (s.1 ≠ .opens → ∀ wants ∈ inertFields,
        meets wants s.2 = false ∧ meets ("overrides" :: Cascade.snapshotName :: wants) s.2 = false) := by
    decide +kernel
  intro s hs
  obtain ⟨hkept, hwhole⟩ := hcheck loaded persistent s hs
  exact ⟨kept_inertOrSaved hkept, fun hopens => whole_inertOrSaved (hwhole hopens)⟩

theorem migrate_prune (honCompile : Whole drop ["onCompile"]) (hhooks : Whole drop ["hooks"]) (m : Mapping) :
    migrate (m.prune drop) = (migrate m).prune drop := by
  have haccepts : acceptsHooks (m.prune drop) = acceptsHooks m := by
    unfold acceptsHooks
    rw [get?_prune_of_whole hhooks]
  unfold migrate
  rw [get?_prune_of_whole honCompile, haccepts]
  cases Entries.get? m "onCompile" with
  | none => rfl
  | some hook =>
    dsimp only
    split
    · exact modifyChild_prune hhooks m _
    · rfl

/-! ### The advice on a tree without them -/

theorem adviceIf_sublist {condition condition' : Bool} (h : condition' = true → condition = true) (advice : Deprecation) :
    (adviceIf condition' advice).Sublist (adviceIf condition advice) := by
  cases condition' with
  | false => exact List.nil_sublist _
  | true =>
    obtain rfl := h rfl
    exact List.Sublist.refl _

theorem hasValue_of_prune {key : String} (h : (m.prune drop).hasValue key = true) : m.hasValue key = true := by
  cases hkey : drop [key] with
  | false => rwa [hasValue_prune hkey] at h
  | true =>
    unfold hasValue at h
    rw [get?_prune_dropped hkey] at h
    cases h

theorem directoryAdvice_sublist (paths : Mapping) (directory : LegacyDirectory) :
    (directoryAdvice (paths.prune drop) directory).Sublist (directoryAdvice paths directory) := by
  unfold directoryAdvice
  cases hkey : drop [directory.key] with
  | true =>
    rw [get?_prune_dropped hkey]
    exact List.nil_sublist _
  | false =>
    rw [get?_prune hkey]
    cases Entries.get? paths directory.key with
    | none => exact List.Sublist.refl _
    | some v => cases v <;> exact List.Sublist.refl _

theorem fileAdvice_sublist (hfiles : drop ["files"] = false) (hname : ∀ name, drop ["files", name] = false) (m : Mapping) :
    (fileAdvice (m.prune drop)).Sublist (fileAdvice m) := by
  unfold fileAdvice
  rw [child_prune hfiles]
  induction m.child "files" with
  | nil => exact List.Sublist.refl _
  | cons e rest ih =>
    obtain ⟨name, v⟩ := e
    rw [prune_cons_kept (hname name), List.flatMap_cons, List.flatMap_cons]
    refine (adviceIf_sublist (fun h => ?_) _).append ih
    cases v with
    | mapping fields =>
      change Entries.has (Mapping.prune _ fields) "defaultExtension" = true at h
      show Entries.has fields "defaultExtension" = true
      cases hkey : below (below drop "files") name ["defaultExtension"] with
      | false => rwa [has_prune hkey] at h
      | true =>
        unfold Entries.has at h
        rw [get?_prune_dropped hkey] at h
        cases h
    | _ => exact h

/-- Without some of its entries a tree is given some of the advice. -/
theorem advice_sublist (hpaths : drop ["paths"] = false) (hfiles : drop ["files"] = false)
    (hname : ∀ name, drop ["files", name] = false) (m : Mapping) : (advice (m.prune drop)).Sublist (advice m) := by
  have hpathAdvice : (pathAdvice (m.prune drop)).Sublist (pathAdvice m) := by
    unfold pathAdvice
    rw [child_prune hpaths]
    refine ((adviceIf_sublist hasValue_of_prune _).append ?_).append (adviceIf_sublist hasValue_of_prune _)
    induction LegacyDirectory.all with
    | nil => exact List.Sublist.refl _
    | cons directory rest ih => exact (directoryAdvice_sublist _ directory).append ih
  exact (((hpathAdvice.append (fileAdvice_sublist hfiles hname m)).append (adviceIf_sublist hasValue_of_prune _)).append
    (adviceIf_sublist hasValue_of_prune _)).append (adviceIf_sublist hasValue_of_prune _)

end Legacy

namespace Resolution
variable {drop : List String → Bool} {d : Defaults} {o : Options}

/-- A resolution that differs from another one only in what its trees hold, of the overrides just the snapshot, and
    in deprecations that it leaves out. -/
structure SameButInert (r r' : Resolution) : Prop where
  configuration : { r'.configuration with
    overrides := r.configuration.overrides, tree := r.configuration.tree } = r.configuration
  names : Entries.keys r'.configuration.overrides = Entries.keys r.configuration.overrides
  overrides : ∀ name, name ≠ "_default" →
    Entries.get? r'.configuration.overrides name = Entries.get? r.configuration.overrides name
  diagnostics : r'.diagnostics.Sublist r.diagnostics
  conflicts : r'.diagnostics.filter Diagnostic.isConflict = r.diagnostics.filter Diagnostic.isConflict
  source : r'.source = r.source

/-- The merged trees of a project with and without inert fields differ in such fields only. -/
theorem blind_merged : Blind Legacy.inertOrSaved fun config => (merged d o config).result := by
  have hwhole : ∀ key ∈ ["onCompile", "hooks"], Whole Legacy.inertOrSaved [key] := fun key hkey =>
    Legacy.whole_inertOrSaved ((by decide : ∀ key ∈ ["onCompile", "hooks"], ∀ wants ∈ Legacy.inertFields,
      MergePolicy.meets wants [key] = false ∧
        MergePolicy.meets ("overrides" :: Cascade.snapshotName :: wants) [key] = false) key hkey)
  have hmigrate : Blind Legacy.inertOrSaved fun config => .ok (Legacy.migrate config) := .of_commutes fun config =>
    congrArg Except.ok (Legacy.migrate_prune (hwhole "onCompile" (by simp)) (hwhole "hooks" (by simp)) config)
  have hfill : Blind Legacy.inertOrSaved (d.apply ⟨o.configPath, o.persistent⟩) :=
    .of_commutes (Defaults.apply_prune Legacy.whole_readSettings Legacy.overlooks_outlines)
  have hall := (hmigrate.bind hfill).bind (Legacy.unread_cascade.blind_apply o.environments o.layer)
  intro config config' hsame
  show SameOutcome _ (merged d o config).result (merged d o config').result
  rw [result_merged, result_merged]
  exact hall hsame

theorem whole_override {name : String} (hname : name ≠ "_default") : Whole Legacy.inertOrSaved ["overrides", name] := by
  have hne : ¬ "_default" = name := fun heq => hname heq.symm
  exact Legacy.whole_inertOrSaved (by simp [Legacy.inertFields, MergePolicy.meets, Cascade.snapshotName, hne])

/-- Trees that differ in inert fields only are read alike. -/
theorem ofTree_of_prune_eq {t t' : Mapping} (h : t.prune Legacy.inertOrSaved = t'.prune Legacy.inertOrSaved)
    (environments : List String) (isProduction : Bool) :
    (Configuration.ofTree environments isProduction t).diagnostics =
        (Configuration.ofTree environments isProduction t').diagnostics ∧
      SameOutcome (fun c c' => c.pruneKept Legacy.inertOrSaved = c'.pruneKept Legacy.inertOrSaved)
        (Configuration.ofTree environments isProduction t).result
        (Configuration.ofTree environments isProduction t').result := by
  have hread := Legacy.unread_configuration.ofTree_prune environments isProduction t
  rw [h, Legacy.unread_configuration.ofTree_prune, Reported.map_eq, Reported.map_eq] at hread
  exact ⟨(congrArg Reported.diagnostics hread).symm, .of_map_eq (congrArg Reported.result hread).symm⟩

theorem sameButInert_of_pruneKept_eq {c c' : Configuration} {advice advice' : List Deprecation} {conflicts : List Diagnostic}
    (h : c.pruneKept Legacy.inertOrSaved = c'.pruneKept Legacy.inertOrSaved) (hadvice : advice'.Sublist advice) :
    SameButInert ⟨c, advice.map .deprecation ++ conflicts, none⟩ ⟨c', advice'.map .deprecation ++ conflicts, none⟩ := by
  have hoverrides : c'.overrides.prune (below Legacy.inertOrSaved "overrides") =
      c.overrides.prune (below Legacy.inertOrSaved "overrides") := congrArg Configuration.overrides h.symm
  have hdeprecations : ∀ advice : List Deprecation,
      (advice.map Diagnostic.deprecation).filter Diagnostic.isConflict = [] := by
    intro advice
    rw [List.filter_map]
    exact List.map_eq_nil_iff.mpr (List.filter_eq_nil_iff.mpr fun _ _ => nofun)
  refine ⟨?configuration, ?names, ?overrides, ?diagnostics, ?conflicts, rfl⟩
  case configuration =>
    exact congrArg (fun x : Configuration => { x with overrides := c.overrides, tree := c.tree }) h.symm
  case names =>
    have hkeys := keys_prune fun key => (Legacy.unread_cascade.overrides key).tail.head
    rw [← hkeys c'.overrides, ← hkeys c.overrides, hoverrides]
  case overrides =>
    intro name hname
    have hget := get?_prune_of_whole (whole_override hname).tail
    rw [← hget c'.overrides, ← hget c.overrides, hoverrides]
  case diagnostics => exact (hadvice.map _).append (List.Sublist.refl conflicts)
  case conflicts => rw [List.filter_append, List.filter_append, hdeprecations, hdeprecations]

/-- Legacy fields are inert. Without any of `rootPath`, `buildPath`, the directories under `paths` that are only
    reported, and `defaultExtension` in the sections of `files`, a tree resolves to the same error, or to the same
    configuration with fewer deprecations. -/
theorem ofTree_inert (hdrop : ∀ q, drop q = true → Legacy.inert q = true) (d : Defaults) (o : Options) (tree : Value) :
    SameOutcome SameButInert (ofTree d o tree) (ofTree d o (tree.prune drop)) := by
  have hkept : ∀ q, Legacy.inert q = false → drop q = false := fun q hq =>
    Bool.eq_false_iff.mpr fun h => Bool.eq_false_iff.mp hq (hdrop q h)
  cases tree with
  | mapping config =>
    have hfiles : hasValue (Mapping.prune drop config) "files" = hasValue config "files" := hasValue_prune (hkept _ rfl) config
    rw [Value.prune_mapping]
    cases hset : hasValue config "files" with
    | false =>
      rw [ofTree_notProject hset, ofTree_notProject (hfiles.trans hset)]
      exact .error _
    | true =>
      have hadvice : (Legacy.advice (Mapping.prune drop config)).Sublist (Legacy.advice config) :=
        Legacy.advice_sublist (hkept _ rfl) (hkept _ rfl)
          (fun name => hkept _ (by simp [Legacy.inert, Legacy.inertFields, MergePolicy.fits])) config
      have hsame : Mapping.prune Legacy.inertOrSaved config = (Mapping.prune drop config).prune Legacy.inertOrSaved :=
        (prune_prune (fun q hq => Legacy.inertOrSaved_of_inert (hdrop q hq)) config).symm
      rw [ofTree_mapping hset, ofTree_mapping (hfiles.trans hset)]
      refine (blind_merged hsame).bind fun t t' ht => ?_
      obtain ⟨hconflicts, hread⟩ := ofTree_of_prune_eq ht o.environments o.isProduction
      rw [hconflicts]
      exact hread.map fun c c' hc => sameButInert_of_pruneKept_eq hc hadvice
  | _ => exact .error _

/-- A project with legacy fields beside its settings, in a section of `files` and in an environment. -/
def datedProject : Value := .mapping [
  ("rootPath", .string "src"),
  ("paths", .mapping [("root", .string "."), ("app", .string "app"), ("test", .list [.string "spec"])]),
  ("files", .mapping [("javascripts", .mapping [("defaultExtension", .string "js"), ("joinTo", .string "app.js")])]),
  ("overrides", .mapping [("ci", .mapping [("paths", .mapping [("vendor", .string "lib"), ("public", .string "out")])])])]

/-- The project without them. -/
def undatedProject : Value := .mapping [
  ("paths", .mapping [("root", .string ".")]),
  ("files", .mapping [("javascripts", .mapping [("joinTo", .string "app.js")])]),
  ("overrides", .mapping [("ci", .mapping [("paths", .mapping [("vendor", .string "lib"), ("public", .string "out")])])])]

/-- A build in an environment of its own, after which the sections are as they were. -/
def datedBuild : Options := { named := ["ci", "_default"] }

theorem ofTree_inert_datedProject : ∃ r r', ofTree {} datedBuild datedProject = .ok r ∧
    ofTree {} datedBuild undatedProject = .ok r' ∧ SameButInert r r' := by
  have hok : (ofTree {} datedBuild datedProject).isOk = true := by decide +kernel
  have hok' : (ofTree {} datedBuild undatedProject).isOk = true := by decide +kernel
  obtain ⟨r, hr⟩ := exists_ok_of_isOk hok
  obtain ⟨r', hr'⟩ := exists_ok_of_isOk hok'
  have hpruned : datedProject.prune Legacy.inert = undatedProject := by
    simp [datedProject, undatedProject, Value.prune, Mapping.prune, Value.pruneEntries, Legacy.inert,
      Legacy.inertFields, MergePolicy.fits, below]
  have hsame := ofTree_inert (fun _ hq => hq) {} datedBuild datedProject
  rw [hpruned, hr, hr'] at hsame
  exact ⟨r, r', hr, hr', hsame.of_ok⟩

end Resolution
end AssetPlan
