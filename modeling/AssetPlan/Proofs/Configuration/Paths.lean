import AssetPlan.Configuration.Paths

/-! # The files that may hold the configuration

The names of the configuration file are one stem with the extension of each format. The stem is the configured path
without such an extension (`stem_of_config`), or the path as it is if it has none. -/

namespace AssetPlan.Paths
variable {p : Paths} {text ending before : List Char} {stem : String} {f : Format}

theorem possibleConfigFiles_eq (p : Paths) : p.possibleConfigFiles = [p.stem ++ ".toml", p.stem ++ ".json"] := by
  unfold possibleConfigFiles
  simp only [Format.all, List.map_cons, List.map_nil, String.append_assoc]
  rfl

theorem withoutEnding?_eq_some_iff : withoutEnding? text ending = some before ↔ text = before ++ ending := by
  unfold withoutEnding?
  constructor
  · intro h
    split at h
    · rename_i hsuffix
      obtain ⟨front, rfl⟩ := List.isSuffixOf_iff_suffix.mp hsuffix
      rw [List.length_append, Nat.add_sub_cancel, List.take_left] at h
      cases h
      rfl
    · cases h
  · rintro rfl
    rw [if_pos (List.isSuffixOf_iff_suffix.mpr (List.suffix_append before ending)), List.length_append,
      Nat.add_sub_cancel, List.take_left]

theorem withoutEnding?_eq_none_iff : withoutEnding? text ending = none ↔ ∀ before, text ≠ before ++ ending := by
  rw [Option.eq_none_iff_forall_ne_some]
  simp only [ne_eq, withoutEnding?_eq_some_iff]

theorem stem_of_config (h : p.config.toList = before ++ '.' :: f.extension.toList) : p.stem = String.ofList before := by
  have hfound : withoutEnding? p.config.toList ('.' :: f.extension.toList) = some before :=
    withoutEnding?_eq_some_iff.mpr h
  unfold Paths.stem
  cases f with
  | toml => rw [Format.all, List.findSome?_cons, hfound]
  | json =>
    -- The first format is tried before, and no text ends in both extensions.
    have htoml : withoutEnding? p.config.toList ('.' :: Format.toml.extension.toList) = none := by
      refine withoutEnding?_eq_none_iff.mpr fun other hother => ?_
      exact absurd (List.append_inj_right' (hother.symm.trans h) rfl) (by decide)
    rw [Format.all, List.findSome?_cons, htoml, List.findSome?_cons, hfound]

theorem stem_of_other (h : ∀ (f : Format) before, p.config.toList ≠ before ++ '.' :: f.extension.toList) :
    p.stem = p.config := by
  have hnone : (Format.all.findSome? fun f => withoutEnding? p.config.toList ('.' :: f.extension.toList)) = none :=
    List.findSome?_eq_none_iff.mpr fun f _ => withoutEnding?_eq_none_iff.mpr (h f)
  unfold Paths.stem
  rw [hnone]

/-- A configured path that ends in the extension of a format is one of the files that may hold the configuration. -/
theorem config_mem_possibleConfigFiles (h : p.config.toList = before ++ '.' :: f.extension.toList) :
    p.config ∈ p.possibleConfigFiles := by
  refine List.mem_map.mpr ⟨f, by cases f <;> decide, ?_⟩
  rw [stem_of_config h, ← String.toList_inj, h]
  simp

end AssetPlan.Paths
