import AssetPlan.Proofs.Cascade.Invocation
import AssetPlan.Proofs.Legacy
import AssetPlan.Proofs.Resolution

/-! # Resolving again

A resolution without environments changes nothing when it is repeated: the finished tree is migrated, it is
filled, and it agrees with the invocation. Each phase leaves such a tree as it is, and the later phases leave
alone what the earlier ones look at. -/

namespace AssetPlan.Resolution
open Mapping Defaults Step
variable {d : Defaults} {o : Options} {inv : Invocation} {config c final : Mapping} {q : List String} {resolution : Resolution}

/-! ### The phases of a second resolution -/

/-- Neither defaulting nor the end of a cascade touches what legacy fields are looked for at. -/
theorem misses_advice : ∀ q ∈ Legacy.advicePaths,
    (∀ loaded persistent, ∀ s ∈ outlines loaded persistent, Misses q s) ∧
      ∀ target ∈ Options.closingTargets, Misses q (.writes, target) := by decide +kernel

/-- Defaulting writes over no hook. -/
theorem written_apart_hook : ∀ loaded persistent, ∀ target ∈ (outlines loaded persistent).flatMap written,
    ¬ target <+: ["hooks", "onCompile"] := by decide +kernel

/-- Hooks can be written into a tree that is defaulted once it is migrated. -/
theorem acceptsHooks_of_apply (hfill : d.apply inv (Legacy.migrate config) = .ok c) : Legacy.acceptsHooks config = true := by
  obtain ⟨hooks, hhooks⟩ := (filled_of_apply hfill).get?_section "hooks" (by simp [steps, environmentSteps])
  have hkept := (Legacy.kept_migrate config).trans (kept_run (Defaults.apply_eq_ok.mp hfill))
  rw [outline_steps, List.nil_append] at hkept
  have hapart := written_apart_hook inv.configPath.isSome inv.persistent
  refine Legacy.acceptsHooks_iff.mpr fun v hv => ?_
  cases hnull : v.isNull with
  | true => exact .inl rfl
  | false =>
    obtain ⟨v', hv', hstays⟩ := hkept ["hooks"] v (fun t ht hp => hapart t ht (hp.trans (by decide))) hv hnull
    rw [find?_singleton, hhooks] at hv'
    cases hv'
    exact .inr hstays.isMapping.symm

/-- A tree that was defaulted is migrated, and so is one with the same hooks and the same legacy hook. -/
theorem migrate_of_apply (hfill : d.apply inv (Legacy.migrate config) = .ok c)
    (hsame : ∀ key, key = "onCompile" ∨ key = "hooks" → Entries.get? final key = Entries.get? c key) :
    Legacy.migrate final = final := by
  obtain ⟨hooks, hhooks⟩ := (filled_of_apply hfill).get?_section "hooks" (by simp [steps, environmentSteps])
  have hkept := kept_run (Defaults.apply_eq_ok.mp hfill)
  rw [outline_steps] at hkept
  have hapart := written_apart_hook inv.configPath.isSome inv.persistent
  refine Legacy.migrate_self ((hsame "hooks" (.inr rfl)).trans hhooks) fun hset => ?_
  have hsetConfig : config.hasValue "onCompile" = true := by
    rw [← hset]
    refine (hasValue_congr ?_).symm
    rw [hsame "onCompile" (.inl rfl), ← find?_singleton, ← find?_singleton,
      find?_apply_of_misses hfill ((misses_advice ["onCompile"] (by decide)).1 _ _), Legacy.find?_migrate (by decide)]
  obtain ⟨hook, hhook, hnull⟩ := Legacy.find?_migrate_hook (acceptsHooks_of_apply hfill) hsetConfig
  obtain ⟨hook', hhook', hstays⟩ := hkept _ hook hapart hhook hnull
  rw [find?_of_get? hhooks] at hhook'
  exact hasValue_iff.mpr ⟨hook', hhook', hstays.isNull hnull⟩

/-- Resolving without environments is idempotent: the finished tree resolves to the same configuration, with the
    same advice. -/
theorem ofTree_idempotent {tree : Value} (he : o.environments = []) (h : ofTree d o tree = .ok resolution) :
    ofTree d o (.mapping resolution.configuration.tree) = .ok resolution := by
  obtain ⟨config, c, final, rfl, hfiles, hfill, hcascade, hread⟩ := ofTree_eq_ok h
  obtain ⟨-, -, hread⟩ := Configuration.ofTree_eq_ok hread
  rw [hread.tree]
  have hfilled := filled_of_apply hfill
  -- The end of the cascade is a run of writes over the filled tree.
  have hconcluded := Cascade.concluded_of_apply hcascade hread.find?_public
  obtain ⟨text, hpublic⟩ := hfilled.find?_public
  obtain ⟨server, hserver⟩ := hfilled.get?_section "server" (by simp [steps, Defaults.serverSteps])
  obtain ⟨final', hrun, hconclude⟩ := Cascade.run_closingSteps (o := o) hpublic hserver
  have happly : Cascade.apply c o.environments o.layer = Cascade.conclude c o.layer := by rw [he]; rfl
  obtain rfl : final' = final := by
    rw [happly, hconclude] at hcascade
    exact Except.ok.inj hcascade
  -- So each phase leaves the final tree as it is.
  have hmigrate : Legacy.migrate final' = final' := by
    refine migrate_of_apply hfill fun key hkey => ?_
    rw [← find?_singleton, ← find?_singleton]
    rcases hkey with rfl | rfl
    · exact Cascade.find?_of_closing hrun (by decide)
    · exact Cascade.find?_of_closing hrun (by decide)
  have hagain : d.apply ⟨o.configPath, o.persistent⟩ (Legacy.migrate final') = .ok final' := by
    rw [hmigrate]
    exact (Cascade.filled_of_closing hfilled rfl hrun hconcluded).apply
  have hcascadeAgain : Cascade.apply final' o.environments o.layer = .ok final' := by
    rw [he]
    exact hconcluded.conclude
  have hsame : ∀ q ∈ Legacy.advicePaths, final'.find? q = Mapping.find? config q := by
    intro q hq
    rw [Cascade.find?_of_closing hrun (misses_advice q hq).2, find?_apply_of_misses hfill ((misses_advice q hq).1 _ _)]
    exact Legacy.find?_migrate ((by decide : ∀ q ∈ Legacy.advicePaths, KeyPath.Apart ["hooks"] q) q hq)
  have hfilesSame : final'.hasValue "files" = Mapping.hasValue config "files" := by
    refine hasValue_congr ?_
    rw [← find?_singleton, ← find?_singleton, hsame ["files"] (by decide)]
  -- And its advice is that of the tree that was read.
  have hmerged : merged d o final' = merged d o config := by
    rw [merged_eq hfill hcascade, merged_eq hagain hcascadeAgain, Legacy.advice_congr hsame]
  rw [← h]
  unfold ofTree configurationOf
  dsimp only
  rw [hfilesSame, hmerged]

/-- A project with legacy fields, one watched directory, and a server that the invocation starts in vain. -/
def legacyProject : Value := .mapping [
  ("onCompile", .string "notify"),
  ("files", .mapping [("javascripts", .mapping [("joinTo", .string "app.js"), ("defaultExtension", .string "js")])]),
  ("paths", .mapping [("watched", .string "src"), ("app", .string "app"), ("ignored", .list [.string "vendor"])]),
  ("server", .mapping [("port", .null)])]

/-- A build of it that asks for a server but does not go on watching. -/
def vainServer : Options := { server := true, port := some 4000, publicPath := some "dist" }

theorem ofTree_idempotent_legacyProject : ∃ resolution, ofTree {} vainServer legacyProject = .ok resolution ∧
    ofTree {} vainServer (.mapping resolution.configuration.tree) = .ok resolution := by
  have hok : (ofTree {} vainServer legacyProject).isOk = true := by decide +kernel
  obtain ⟨resolution, h⟩ := exists_ok_of_isOk hok
  exact ⟨resolution, h, ofTree_idempotent rfl h⟩

end AssetPlan.Resolution
