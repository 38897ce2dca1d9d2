import AssetPlan.FileSystem.Tree
import AssetPlan.Proofs.FilePath
import AssetPlan.Proofs.Traversal

/-! # Files have names

A path that ends in a slash, or in a dot of its own, leads to a directory, so what can be read ends in a name. That is
asked of a file system, and it holds of every tree. -/

namespace AssetPlan

/-- Paths that can be read end in a name. -/
def FileSystem.ReadsNames (files : FileSystem) : Prop :=
  ∀ path bytes, files.read path = .ok bytes → FilePath.endsInName path.toList = true

namespace FileTree
variable {root : FileTree} {place : Place} {bytes : List UInt8} {above : List FileTree} {path : String} {part : List Char}

theorem isStay_of_enter_file (h : enter place part = .ok (.inside (.file bytes) above)) : FilePath.isStay part = false := by
  refine Bool.eq_false_iff.mpr fun hstay => ?_
  unfold enter at h
  split at h
  · cases h
  · rw [if_pos hstay] at h
    cases h
  · rw [if_pos (.inl hstay)] at h
    cases h

theorem endsInName_of_find (h : find root path = .ok (.inside (.file bytes) above)) :
    FilePath.endsInName path.toList = true := by
  unfold find at h
  split at h
  · cases h
  · split at h
    · cases h
    · split at h
      · cases h
      · rcases List.eq_nil_or_concat (FilePath.parts path.toList) with hnil | ⟨before, last, hparts⟩
        · exact absurd hnil (Text.splitBy_ne_nil _ _)
        · rw [List.concat_eq_append] at hparts
          rw [hparts, List.foldlM_append] at h
          obtain ⟨place, -, h⟩ := bind_eq_ok.mp h
          obtain ⟨next, hnext, h⟩ := foldlM_cons_eq_ok.mp h
          cases h
          simp [FilePath.endsInName, hparts, isStay_of_enter_file hnext]

theorem readsNames_fileSystem (root : FileTree) : root.fileSystem.ReadsNames := by
  intro path bytes h
  change root.read path = .ok bytes at h
  unfold read at h
  split at h
  · rename_i found above hfind
    exact endsInName_of_find hfind
  · cases h
  · cases h

end FileTree
end AssetPlan
