import AssetPlan.Configuration
import AssetPlan.Proofs.Routing.Alike
import AssetPlan.Proofs.Value.Pruned

/-! # Configurations of pruned trees

The reader looks at some settings of `paths` and of the sections of `files`, and at a few sections as a whole.
Entries elsewhere are not seen by it, so a tree without them is the same configuration, but for the overrides and
the tree that the configuration keeps. -/

namespace AssetPlan
open KeyPath Mapping
variable {drop : List String → Bool}

theorem Reported.bind_liftM_map {α β γ : Type} (x : Except ConfigError α) (f : α → β) (g : β → Reported γ) :
    ((liftM (x.map f) : Reported β) >>= g) = (liftM x : Reported α) >>= fun a => g (f a) := by
  cases x <;> rfl

namespace Configuration

/-- What is dropped is not seen by the reader of configurations. -/
structure Unread (drop : List String → Bool) : Prop where
  paths : ∀ key ∈ ["root", "public", "watched", "config", "packageConfig", "bowerConfig"], Whole drop ["paths", key]
  files : ∀ name, ∀ key ∈ Routing.sectionKeys, Whole drop ["files", name, key]
  others : ∀ key ∈ ["conventions", "modules", "plugins", "server", "npm", "hooks", "watcher", "fileListInterval",
    "persistent", "optimize", "sourceMaps", "notifications"], Whole drop [key]
  overrides : drop ["overrides"] = false

/-- The configuration without what is dropped of the trees that it keeps. -/
def pruneKept (drop : List String → Bool) (c : Configuration) : Configuration :=
  { c with overrides := c.overrides.prune (below drop "overrides"), tree := c.tree.prune drop }

namespace Unread
variable (h : Unread drop)
include h

theorem ofFields_paths (fields : Mapping) : Paths.ofFields (fields.prune (below drop "paths")) = Paths.ofFields fields := by
  have hkey : ∀ key ∈ ["root", "public", "watched", "config", "packageConfig", "bowerConfig"],
      Whole (below drop "paths") [key] := fun key hkey => (h.paths key hkey).tail
  unfold Paths.ofFields
  rw [text?_prune (hkey "root" (by simp)), text?_prune (hkey "public" (by simp)),
    get?_prune_of_whole (hkey "watched" (by simp)), text?_prune (hkey "config" (by simp)),
    text?_prune (hkey "packageConfig" (by simp)), text?_prune (hkey "bowerConfig" (by simp))]

theorem allAlike_files (files : Mapping) : Routing.AllAlike (files.prune (below drop "files")) files := by
  induction files with
  | nil => exact .nil
  | cons e rest ih =>
    obtain ⟨name, v⟩ := e
    rw [prune_cons_kept (h.files name "joinTo" (by decide)).kept.tail.head]
    refine .cons name ?_ ih
    cases v with
    | mapping fields =>
      rw [Value.prune_mapping]
      refine .fields fun key hkey => ?_
      unfold Routing.setting?
      rw [get?_prune_of_whole (h.files name key hkey).tail.tail]
    | _ => exact .refl _

/-- Reading commutes with dropping what is not seen. -/
theorem ofTree_prune (environments : List String) (isProduction : Bool) (tree : Mapping) :
    ofTree environments isProduction (tree.prune drop) = pruneKept drop <$> ofTree environments isProduction tree := by
  have hpaths : drop ["paths"] = false := (h.paths "root" (by simp)).kept.head
  have hfiles : drop ["files"] = false := (h.files "javascripts" "joinTo" (by decide)).kept.head
  have hinterval : intervalOf (tree.prune drop) = intervalOf tree := by
    unfold intervalOf
    rw [get?_prune_of_whole (h.others "fileListInterval" (by simp))]
  unfold ofTree
  simp only [hinterval, map_bind, required_prune hpaths, required_prune hfiles, required_prune h.overrides,
    required_prune_of_whole (h.others "conventions" (by simp)), required_prune_of_whole (h.others "modules" (by simp)),
    required_prune_of_whole (h.others "plugins" (by simp)), required_prune_of_whole (h.others "server" (by simp)),
    required_prune_of_whole (h.others "npm" (by simp)), required_prune_of_whole (h.others "hooks" (by simp)),
    required_prune_of_whole (h.others "watcher" (by simp)), flag?_prune (h.others "persistent" (by simp)),
    flag?_prune (h.others "optimize" (by simp)), flag?_prune (h.others "sourceMaps" (by simp)),
    flag?_prune (h.others "notifications" (by simp)), Reported.bind_liftM_map, h.ofFields_paths,
    Routing.ofFiles_congr (h.allAlike_files _), map_pure]
  rfl

end Unread
end Configuration
end AssetPlan
