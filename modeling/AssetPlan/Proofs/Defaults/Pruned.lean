import AssetPlan.Proofs.Defaults.Fresh
import AssetPlan.Proofs.Value.Pruned

/-! # Steps over pruned trees

A step does not see entries that are neither at its target nor among the settings that its value reads, so
defaulting commutes with pruning such entries, also where it fails. -/

namespace AssetPlan
open KeyPath
variable {drop : List String → Bool} {reads : List (String × String)} {m : Mapping} {s : Step} {steps : List Step}

namespace Step

/-- What is dropped is not seen by a step. Below a section that it opens anything may be dropped. -/
def Overlooks (drop : List String → Bool) (s : Manner × List String) : Prop :=
  Kept drop s.2 ∧ (s.1 ≠ .opens → Whole drop s.2)

theorem apply_prune (hreads : s.Reads reads) (hwhole : ∀ q ∈ reads, Whole drop [q.1, q.2])
    (hs : Overlooks drop s.outline) (m : Mapping) : s.apply (m.prune drop) = (s.apply m).map (Mapping.prune drop) := by
  obtain ⟨hkept, htarget⟩ := hs
  have hsettings : ∀ q ∈ reads, (m.prune drop).find? [q.1, q.2] = m.find? [q.1, q.2] := fun q hq =>
    Mapping.find?_prune_of_whole (hwhole q hq) m
  -- A value that is written is not pruned.
  have hvalue : ∀ {path : List String} {key : String} {drop' : List String → Bool}, Whole drop (path ++ [key]) →
      (∀ q, drop' q = drop (path ++ q)) → drop' [key] = false ∧ ∀ v : Value, v.prune (below drop' key) = v := by
    intro path key drop' htarget hdrop
    have hlast : Whole drop' [key] := htarget.append hdrop
    exact ⟨hlast.kept.head, Value.prune_of_whole hlast.tail⟩
  cases s with
  | openSection path key =>
    refine Mapping.editAt_prune hkept.append (fun drop' hdrop fields => ?_) m
    exact Mapping.editSection_prune ((hdrop [key]).trans (Bool.eq_false_iff.mpr fun h => hkept _ h List.prefix_rfl))
      (fun _ => rfl) fields
  | fill path key value =>
    show (value (m.prune drop) >>= _) = (value m >>= _).map _
    rw [hreads (m.prune drop) m hsettings]
    cases value m with
    | error e => rfl
    | ok v =>
      refine Mapping.editAt_prune hkept.append (fun drop' hdrop fields => congrArg Except.ok ?_) m
      obtain ⟨hkey, hv⟩ := hvalue (htarget nofun) hdrop
      rw [Mapping.prune_setDefault hkey, hv]
  | write path key value =>
    show (value (m.prune drop) >>= _) = (value m >>= _).map _
    rw [hreads (m.prune drop) m hsettings]
    cases value m with
    | error e => rfl
    | ok v =>
      refine Mapping.editAt_prune hkept.append (fun drop' hdrop fields => congrArg Except.ok ?_) m
      obtain ⟨hkey, hv⟩ := hvalue (htarget nofun) hdrop
      rw [Mapping.prune_insert hkey, hv]
  | requireText path key =>
    refine Mapping.editAt_prune hkept.append (fun drop' hdrop fields => ?_) m
    rw [Mapping.text?_prune ((htarget nofun).append hdrop)]
    cases fields.text? path key <;> rfl

theorem run_prune (hreads : ∀ s ∈ steps, s.Reads reads) (hwhole : ∀ q ∈ reads, Whole drop [q.1, q.2])
    (hs : ∀ s ∈ steps.map outline, Overlooks drop s) (m : Mapping) :
    run (m.prune drop) steps = ((run m steps).1.prune drop, (run m steps).2) := by
  induction steps generalizing m with
  | nil => rfl
  | cons s steps ih =>
    obtain ⟨hfirst, hreads⟩ := List.forall_mem_cons.mp hreads
    obtain ⟨hhead, hs⟩ := List.forall_mem_cons.mp hs
    rw [run, run, apply_prune hfirst hwhole hhead]
    cases s.apply m with
    | error e => rfl
    | ok c => exact ih hreads hs c

theorem ReadsSet.mono {reads' : List (String × String)} (h : s.ReadsSet reads) (hsub : ∀ q ∈ reads, q ∈ reads') :
    s.ReadsSet reads' := by
  cases s with
  | fill path key value | write path key value => exact fun m e hagree => h m e fun q hq => hagree q (hsub q hq)
  | _ => trivial

end Step

namespace Defaults
variable {d : Defaults} {inv : Invocation}

/-- The settings that the values of steps depend on. -/
def readSettings : List (String × String) :=
  [("paths", "root"), ("paths", "watched"), ("paths", "ignored"), ("paths", "public")]

theorem readsSet_steps (d : Defaults) (inv : Invocation) : ∀ s ∈ d.steps inv, s.ReadsSet readSettings := by
  unfold steps
  simp only [List.forall_mem_append]
  exact ⟨⟨⟨⟨fun s hs => (readsSet_pathSteps d inv s hs).mono (by decide),
    fun s hs => (readsSet_conventionSteps s hs).mono (by decide)⟩, fun s hs => (readsSet_buildSteps d s hs).mono nofun⟩,
    fun s hs => (readsSet_serverSteps d inv s hs).mono (by decide)⟩,
    fun s hs => (readsSet_environmentSteps s hs).mono nofun⟩

/-- Defaulting commutes with dropping what it does not see. -/
theorem apply_prune (hwhole : ∀ q ∈ readSettings, Whole drop [q.1, q.2])
    (hs : ∀ loaded persistent, ∀ s ∈ outlines loaded persistent, Step.Overlooks drop s) (m : Mapping) :
    d.apply inv (m.prune drop) = (d.apply inv m).map (Mapping.prune drop) := by
  unfold apply fill
  rw [Step.run_prune (fun s hs => (readsSet_steps d inv s hs).reads) hwhole (outline_steps d inv ▸ hs _ _)]
  generalize Step.run m (d.steps inv) = outcome
  obtain ⟨c, e⟩ := outcome
  cases e <;> rfl

end Defaults
end AssetPlan
