import AssetPlan.Proofs.Cascade.Commute
import AssetPlan.Proofs.Configuration.Unset
import AssetPlan.Proofs.Defaults.Fresh
import AssetPlan.Proofs.Legacy
import AssetPlan.Proofs.Resolution
import AssetPlan.Proofs.Text

/-! # What the conventions of a finished configuration accept

The files of a project may give a convention any pattern, and environments any other one in its place. Each convention
accepts what the pattern in the merged tree accepts, and nothing if none is set there. For assets the files of managed
dependencies are left out, whatever that pattern is. -/

namespace AssetPlan
open Mapping
variable {fields : Mapping} {name path : String}

namespace Conventions
variable {c : Conventions}

/-- A path with the directory of managed dependencies as one of its parts, between slashes of either kind. -/
def InDependencies (path : String) : Prop :=
  Text.IsPiece (fun c => c == '/' || c == '\\') "node_modules".toList path.toList

theorem isDependency_iff : isDependency path = true ↔ InDependencies path := by
  unfold isDependency dependencyDirectory InDependencies Text.split
  rw [← Text.mem_splitBy_iff, List.contains_iff_mem, List.mem_map]
  constructor
  · rintro ⟨piece, hpiece, hname⟩
    rwa [← hname, String.toList_ofList]
  · intro h
    exact ⟨_, h, String.ofList_toList⟩

/-- The pattern of a convention in a section, if one is set. -/
def patternIn? (fields : Mapping) (name : String) : Option Pattern :=
  (Entries.get? fields name).bind fun v => (v.toPattern ["conventions", name]).toOption

/-- A convention is the pattern under its name. -/
theorem get?_matchers (hw : Entries.WellKeyed fields) (h : ofFields fields = .ok c) (name : String) :
    Entries.get? c.matchers name = (patternIn? fields name).map (matcherOf name) := by
  rw [get?_ofFields hw h, set?, Value.bind_filter_set rfl]
  unfold patternIn?
  cases Entries.get? fields name with
  | none => rfl
  | some v =>
    show (v.toPattern _ >>= fun p => _).toOption.map Prod.snd = (v.toPattern _).toOption.map (matcherOf name)
    cases v.toPattern ["conventions", name] <;> rfl

theorem isAsset_eq (hw : Entries.WellKeyed fields) (h : ofFields fields = .ok c) (path : String) :
    c.isAsset path = (! isDependency path && (patternIn? fields "assets").any (·.accepts path)) := by
  unfold isAsset accepts
  rw [get?_matchers hw h]
  cases patternIn? fields "assets" with
  | none => exact (Bool.and_false _).symm
  | some p => rfl

theorem accepts_eq (hw : Entries.WellKeyed fields) (h : ofFields fields = .ok c) (hname : name ≠ "assets")
    (path : String) : c.accepts name path = (patternIn? fields name).any (·.accepts path) := by
  unfold accepts
  rw [get?_matchers hw h]
  cases patternIn? fields name with
  | none => rfl
  | some p =>
    show (matcherOf name p).accepts path = p.accepts path
    unfold matcherOf
    rw [if_neg hname]
    rfl

/-- Whatever is set for a convention that was read is a pattern. -/
theorem exists_toPattern_of_ofFields (hw : Entries.WellKeyed fields) (h : ofFields fields = .ok c) {v : Value}
    (hv : Entries.get? fields name = some v) (hnull : v.isNull = false) :
    ∃ p, v.toPattern ["conventions", name] = .ok p := by
  obtain ⟨entry, hentry⟩ := (exists_ofFields_iff hw).mp ⟨c, h⟩ name v (set?_eq_some.mpr ⟨hv, hnull⟩)
  obtain ⟨p, hp, -⟩ := bind_eq_ok.mp hentry
  exact ⟨p, hp⟩

end Conventions

namespace Resolution
variable {defaults : Defaults} {options : Options} {tree : Value} {config final : Mapping} {resolution : Resolution}

/-- No key is twice in a merged tree. -/
theorem wellKeyed_merged (hw : (Value.mapping config).WellKeyed)
    (h : (merged defaults options config).result = .ok final) : (Value.mapping final).WellKeyed := by
  rw [result_merged] at h
  obtain ⟨filled, hfilled, hcascade⟩ := bind_eq_ok.mp h
  exact Cascade.wellKeyed_apply (Defaults.wellKeyed_of_apply (Legacy.wellKeyed_migrate hw) hfilled)
    options.wellKeyed_layer hcascade

/-- The files of managed dependencies are no assets, and all else about conventions is what the patterns of the merged
    tree say. Each that is set there can be read as one. -/
theorem ofTree_conventions (hw : tree.WellKeyed) (h : ofTree defaults options tree = .ok resolution) :
    ∃ config final, tree = .mapping config ∧ (merged defaults options config).result = .ok final ∧
      (∀ name v, Entries.get? (final.child "conventions") name = some v → v.isNull = false →
        ∃ p, v.toPattern ["conventions", name] = .ok p) ∧
      (∀ path, Conventions.InDependencies path → resolution.configuration.conventions.isAsset path = false) ∧
      (∀ path, ¬Conventions.InDependencies path → resolution.configuration.conventions.isAsset path =
        (Conventions.patternIn? (final.child "conventions") "assets").any (·.accepts path)) ∧
      ∀ name, name ≠ "assets" → ∀ path, resolution.configuration.conventions.accepts name path =
        (Conventions.patternIn? (final.child "conventions") name).any (·.accepts path) := by
  obtain ⟨config, filled, final, rfl, -, hfilled, hcascade, hread⟩ := ofTree_eq_ok h
  obtain ⟨-, -, hread⟩ := Configuration.ofTree_eq_ok hread
  have hmerged : (merged defaults options config).result = .ok final := by rw [merged_eq hfilled hcascade]
  obtain ⟨fields, hfields, hconventions⟩ := hread.conventions
  have hget := required_eq_ok hfields
  have hwf : Entries.WellKeyed fields := ((wellKeyed_merged hw hmerged).get? hget).1
  refine ⟨config, final, rfl, hmerged, ?_⟩
  rw [child_of_get? hget]
  refine ⟨fun name v => Conventions.exists_toPattern_of_ofFields hwf hconventions, ?dependency, ?asset,
    fun name => Conventions.accepts_eq hwf hconventions⟩
  case dependency =>
    intro path hin
    rw [Conventions.isAsset_eq hwf hconventions, Conventions.isDependency_iff.mpr hin]
    rfl
  case asset =>
    intro path hout
    have hdependency := Bool.eq_false_iff.mpr fun hin => hout (Conventions.isDependency_iff.mp hin)
    rw [Conventions.isAsset_eq hwf hconventions, hdependency]
    rfl

/-- A project whose production environment has other assets, and no files of vendors. -/
def pictureConfig : Mapping := [
  ("files", .mapping [("javascripts", .mapping [("joinTo", .string "app.js")])]),
  ("conventions", .mapping [("assets", .string "app/static/**"), ("generated", .string "/gen/"), ("docs", .null)]),
  ("overrides", .mapping [("production", .mapping [
    ("conventions", .mapping [("assets", .list [.string "/\\.png$/", .list [.string "static/*"]]), ("vendor", .null)])])])]

theorem ofTree_conventions_pictureConfig : ∃ resolution,
    ofTree {} { production := true } (.mapping pictureConfig) = .ok resolution ∧
    resolution.configuration.conventions.isAsset "app\\node_modules\\pkg\\logo.png" = false ∧
    resolution.configuration.conventions.isAsset "my_node_modules/logo.png" = true ∧
    resolution.configuration.conventions.accepts "generated" "node_modules/gen/a.js" = true ∧
    resolution.configuration.conventions.accepts "vendor" "vendor/a.js" = false := by
  have hok : (ofTree {} { production := true } (.mapping pictureConfig)).isOk = true := by decide +kernel
  obtain ⟨resolution, h⟩ := exists_ok_of_isOk hok
  have hw : (Value.mapping pictureConfig).WellKeyed := by decide +kernel
  obtain ⟨config, final, hconfig, hmerged, -, hdependency, hasset, hother⟩ := ofTree_conventions hw h
  cases hconfig
  have hpatterns : ((merged {} { production := true } pictureConfig).result.toOption.map fun t =>
      let accepts name path := (Conventions.patternIn? (t.child "conventions") name).any (·.accepts path)
      (accepts "assets" "my_node_modules/logo.png", accepts "generated" "node_modules/gen/a.js",
        accepts "vendor" "vendor/a.js")) = some (true, true, false) := by decide +kernel
  rw [hmerged] at hpatterns
  obtain ⟨hpicture, hrest⟩ := Prod.mk.inj (Option.some.inj hpatterns)
  obtain ⟨hgenerated, hvendor⟩ := Prod.mk.inj hrest
  have hin : Conventions.InDependencies "app\\node_modules\\pkg\\logo.png" :=
    Conventions.isDependency_iff.mp (by decide +kernel)
  have hout : ¬Conventions.InDependencies "my_node_modules/logo.png" := fun hin =>
    absurd (Conventions.isDependency_iff.mpr hin) (by decide +kernel)
  exact ⟨resolution, h, hdependency _ hin, (hasset _ hout).trans hpicture,
    (hother _ (by decide) _).trans hgenerated, (hother _ (by decide) _).trans hvendor⟩

end Resolution
end AssetPlan
