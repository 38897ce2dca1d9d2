import AssetPlan.Proofs.Defaults.Pruned
import AssetPlan.Proofs.Routing.Alike

/-! # Steps over trees in which the same is set

Defaulting takes a null setting for one that is missing, in the tree and in the sections that it fills. The sections
of `files` are not its concern; there the routing decides what counts. A step keeps two trees alike, or fails in
both, and so does a run of steps. -/

namespace AssetPlan
open Mapping

/-- The sections in which a null setting counts as a missing one. -/
def lenientSections : List String := ["paths", "conventions", "modules", "server", "npm", "watcher", "plugins"]

/-- Two sections of a tree that are taken for the same. -/
inductive SectionsAlike : String → Mapping → Mapping → Prop where
  | set {key : String} {f f' : Mapping} (hkey : key ∈ lenientSections) (h : SameSet f f') : SectionsAlike key f f'
  | files {f f' : Mapping} (h : Routing.AllAlike f f') : SectionsAlike "files" f f'

/-- Two trees that are taken for the same. -/
def TreeAlike (m e : Mapping) : Prop := SetAlike SectionsAlike m e

namespace TreeAlike
variable {m e : Mapping} {path : List String} {s : Step} {steps : List Step}
  {edit : Mapping → Except ConfigError Mapping}

/-- Elsewhere the same is set. -/
theorem set?_eq (h : TreeAlike m e) {key : String} (hkey : key ∉ lenientSections) (hfiles : key ≠ "files") :
    m.set? key = e.set? key := by
  rcases h key with heq | ⟨f, f', -, -, hf⟩
  · exact heq
  · cases hf with
    | set hmem => exact absurd hmem hkey
    | files => exact absurd rfl hfiles

theorem child (h : TreeAlike m e) {key : String} (hfiles : key ≠ "files") : SameSet (m.child key) (e.child key) := by
  rw [child_eq, child_eq]
  rcases h key with heq | ⟨f, f', hm, he, hf⟩
  · rw [heq]
    exact sameSet_iff.mpr fun _ => rfl
  · rw [hm, he]
    cases hf with
    | set _ hset => exact hset
    | files => exact absurd rfl hfiles

/-- In a section other than `files` the same is set. -/
theorem setAt?_eq (h : TreeAlike m e) {q : String × String} (hfiles : q.1 ≠ "files") : m.setAt? q = e.setAt? q := by
  unfold setAt?
  rw [find?_pair, find?_pair]
  rcases h q.1 with heq | ⟨f, f', hm, he, hf⟩
  · rw [heq]
  · rw [hm, he]
    generalize q.1 = key at *
    cases hf with
    | set _ hset => exact sameSet_iff.mp hset q.2
    | files => exact absurd rfl hfiles

/-- An edit that goes by what is set keeps trees alike, wherever it is made but in `files`. -/
theorem editAt (h : TreeAlike m e) (hfirst : path.head? ≠ some "files")
    (hedit : ∀ {rel m e}, SetAlike rel m e → SameSuccess (SetAlike rel) (edit m) (edit e)) :
    SameSuccess TreeAlike (Mapping.editAt path edit m) (Mapping.editAt path edit e) := by
  cases path with
  | nil => exact hedit h
  | cons key rest =>
    refine SetAlike.editSection h fun f f' hf => ?_
    rcases hf with rfl | hf
    · exact .of_refl (fun _ => .inl rfl) _
    · cases hf with
      | files => exact absurd rfl hfirst
      | set hkey hset =>
        -- Below a section of a section nothing differs.
        have hbelow : SameSuccess SameSet (Mapping.editAt rest edit f) (Mapping.editAt rest edit f') := by
          cases rest with
          | nil => exact hedit hset
          | cons key' rest =>
            refine SetAlike.editSection hset fun g g' hg => ?_
            obtain rfl := hg.resolve_right id
            exact .of_refl (fun _ => .inl rfl) _
        exact hbelow.imp fun _ _ _ _ hg => .inr (.set hkey hg)

theorem apply (h : TreeAlike m e) (hreads : s.ReadsSet Defaults.readSettings) (hfirst : s.target.head? ≠ some "files") :
    SameSuccess TreeAlike (s.apply m) (s.apply e) := by
  have hpath : ∀ {path : List String} {key : String}, s.target = path ++ [key] → path.head? ≠ some "files" := by
    intro path key htarget
    cases path with
    | nil => exact nofun
    | cons first rest =>
      rw [htarget] at hfirst
      exact hfirst
  have hsame : ∀ q ∈ Defaults.readSettings, m.setAt? q = e.setAt? q := fun q hq =>
    h.setAt?_eq ((by decide : ∀ q ∈ Defaults.readSettings, q.1 ≠ "files") q hq)
  cases s with
  | openSection path key =>
    exact h.editAt (hpath rfl) fun hrel => hrel.editSection fun _ _ hf => .ok hf
  | fill path key value =>
    show SameSuccess _ (value m >>= _) (value e >>= _)
    rw [hreads m e hsame]
    refine (SameSuccess.of_refl (fun _ => rfl) _).bind_eq fun v => h.editAt (hpath rfl) fun hrel => .ok ?_
    exact hrel.setDefault key v
  | write path key value =>
    show SameSuccess _ (value m >>= _) (value e >>= _)
    rw [hreads m e hsame]
    refine (SameSuccess.of_refl (fun _ => rfl) _).bind_eq fun v => h.editAt (hpath rfl) fun hrel => .ok ?_
    exact hrel.insert key v
  | requireText path key =>
    exact h.editAt (hpath rfl) fun hrel => (hrel.text? path key).bind_eq fun _ => .ok hrel

theorem run (h : TreeAlike m e) (hreads : ∀ s ∈ steps, s.ReadsSet Defaults.readSettings)
    (hfirst : ∀ s ∈ steps, s.target.head? ≠ some "files") :
    SameSuccess TreeAlike (steps.foldlM Step.apply m) (steps.foldlM Step.apply e) :=
  .foldlM h fun s hs _ _ h => h.apply (hreads s hs) (hfirst s hs)

end TreeAlike

namespace Step

/-- A run as a fold that ends with the first step that fails. -/
theorem foldlM_apply (m : Mapping) (steps : List Step) : steps.foldlM Step.apply m =
    match run m steps with
    | (c, none) => .ok c
    | (_, some e) => .error e := by
  induction steps generalizing m with
  | nil => rfl
  | cons s steps ih =>
    rw [List.foldlM_cons, run]
    cases s.apply m with
    | error e => rfl
    | ok c => exact ih c

end Step

namespace Defaults
variable {d : Defaults} {inv : Invocation} {m e : Mapping}

theorem outlines_head? : ∀ loaded persistent, ∀ s ∈ outlines loaded persistent, s.2.head? ≠ some "files" := by
  decide +kernel

/-- Defaulting keeps trees alike. -/
theorem apply_alike (h : TreeAlike m e) (inv : Invocation) : SameSuccess TreeAlike (d.apply inv m) (d.apply inv e) := by
  have hfold : ∀ m : Mapping, d.apply inv m = (d.steps inv).foldlM Step.apply m := fun m =>
    (Step.foldlM_apply m (d.steps inv)).symm
  rw [hfold, hfold]
  refine h.run (readsSet_steps d inv) fun s hs => ?_
  have hmem : s.outline ∈ outlines inv.configPath.isSome inv.persistent := by
    rw [← outline_steps d]
    exact List.mem_map.mpr ⟨s, hs, rfl⟩
  exact outlines_head? _ _ s.outline hmem

end Defaults
end AssetPlan
