import AssetPlan.Proofs.Configuration.Rejection
import AssetPlan.Proofs.Defaults.Fresh
import AssetPlan.Proofs.Resolution.Idempotence

/-! # Errors name what they reject

A resolution without environments that fails with an error under a key rejects a value of the tree that was read. It
is found from the back: the reader rejects a value of the finished tree, and no earlier phase has written one that is
rejected. The key leads to it, but for the legacy field that is read in place of a convention. -/

namespace AssetPlan.Resolution
open Mapping Defaults
variable {o : Options} {config c : Mapping} {path key : List String} {tree v : Value} {e : ConfigError}

/-! ### Back over the phases -/

theorem wellKeyed_of_suits {target : List String} (h : Options.Suits target v) : v.WellKeyed := by
  unfold Options.Suits at h
  split at h <;> obtain ⟨_, rfl⟩ := h <;> exact trivial

theorem neat_closingSteps (o : Options) : ∀ s ∈ o.closingSteps, s.Neat := by
  intro s hs
  cases Options.closing_closingSteps o s hs with
  | write hsuits htarget =>
    intro m v _ hv
    cases hv
    exact wellKeyed_of_suits (hsuits m)

/-- A cascade without environments over a filled tree succeeds, and the finished tree is filled. -/
theorem exists_closed {d : Defaults} {inv : Invocation} (hpersistent : o.persistent = inv.persistent)
    (he : o.environments = []) (hfilled : d.Filled inv c) : ∃ final, Step.run c o.closingSteps = (final, none) ∧
      Cascade.apply c o.environments o.layer = .ok final ∧ d.Filled inv final := by
  obtain ⟨text, hpublic⟩ := hfilled.find?_public
  obtain ⟨server, hserver⟩ := hfilled.get?_section "server" (by simp [steps, serverSteps])
  obtain ⟨final, hrun, hconclude⟩ := Cascade.run_closingSteps (o := o) hpublic hserver
  have happly : Cascade.apply c o.environments o.layer = .ok final := by
    rw [he]
    exact hconclude
  obtain ⟨_, hfinal, text', rfl⟩ := Cascade.suits_of_closing hrun (by decide) ⟨_, hpublic, text, rfl⟩
  exact ⟨final, hrun, happly, Cascade.filled_of_closing hfilled hpersistent hrun (Cascade.concluded_of_apply happly hfinal)⟩

/-- Migrating writes the hooks, and no reader of them rejects what it writes. -/
theorem blames_of_migrate (h : Blames (Legacy.migrate config) e path v) : Blames config e path v := by
  refine { h with found := ?_ }
  by_cases hhooks : ["hooks"] <+: path
  -- No path goes on below the hooks, and as a mapping they are not rejected.
  · obtain rfl := h.ends ["hooks"] (by decide) hhooks
    rw [find?_singleton]
    rcases Legacy.origin_of_migrate ((find?_singleton _ _).symm.trans h.found) with hkept | hmapping
    · exact hkept
    · exact absurd ⟨.mapping, by decide, hmapping⟩ h.not_welcome
  · have hapart : KeyPath.Apart ["hooks"] path := by
      refine ⟨hhooks, fun hstarts => ?_⟩
      rcases List.prefix_cons_iff.mp hstarts with hnil | ⟨rest, rfl, -⟩
      · exact h.ne_nil hnil
      · exact hhooks (List.cons_prefix_cons.mpr ⟨rfl, List.nil_prefix⟩)
    exact (Legacy.find?_migrate hapart).symm.trans h.found

theorem traced_of_migrate (h : Traced (Legacy.migrate config) e) : Traced config e := by
  rcases h with ⟨path, v, hblames⟩ | ⟨v, hlegacy⟩ | ⟨v, path, hpath, hfound, hshape⟩
  · exact .inl ⟨path, v, blames_of_migrate hblames⟩
  · refine .inr (.inl ⟨v, { hlegacy with unset := fun u hu => ?_, found := ?_ }⟩)
    · exact hlegacy.unset u ((Legacy.find?_migrate (by decide)).trans hu)
    · exact (Legacy.find?_migrate (by decide)).symm.trans hlegacy.found
  · have hapart := (by decide : ∀ path ∈ nestedSections, KeyPath.Apart ["hooks"] path) path hpath
    exact .inr (.inr ⟨v, path, hpath, (Legacy.find?_migrate hapart).symm.trans hfound, hshape⟩)

/-! ### Whole resolutions -/

theorem ofTree_eq_error {d : Defaults} (h : ofTree d o tree = .error e) (hkey : e.key? = some key) :
    ∃ config, tree = .mapping config ∧ hasValue config "files" = true ∧ (configurationOf d o config).result = .error e := by
  unfold ofTree at h
  split at h
  · rename_i config
    split at h
    · rename_i hfiles
      cases hc : (configurationOf d o config).result with
      | ok c =>
        dsimp only at h
        rw [hc] at h
        cases h
      | error e' =>
        dsimp only at h
        rw [hc] at h
        cases h
        exact ⟨config, rfl, hfiles, hc⟩
    · cases h
      cases hkey
  · cases h
    cases hkey

/-- An error of a resolution without environments is about a value of the tree that was read. -/
theorem traced_of_configurationOf (hw : (Value.mapping config).WellKeyed) (he : o.environments = [])
    (hfiles : config.hasValue "files" = true) (h : (configurationOf {} o config).result = .error e) : Traced config e := by
  refine traced_of_migrate ?_
  rcases Reported.result_bind_eq_error.mp h with hmerged | ⟨final, hmerged, hread⟩
  -- The tree is not finished: defaulting fails, since migrating and the cascade do not.
  · rcases Reported.result_bind_eq_error.mp hmerged with hcheck | ⟨migrated, hmigrated, hrest⟩
    · cases hcheck
    cases hmigrated
    rcases Reported.result_bind_eq_error.mp hrest with hfill | ⟨c, hfill, hcascade⟩
    · exact traced_of_apply hfill
    · obtain ⟨final, -, happly, -⟩ := exists_closed rfl he (filled_of_apply hfill)
      cases happly.symm.trans hcascade
  -- The finished tree is not read: what is blamed there is traced back over all steps.
  · obtain ⟨migrated, hmigrated, hrest⟩ := Reported.result_bind_eq_ok.mp hmerged
    cases hmigrated
    obtain ⟨c, hfill, hcascade⟩ := Reported.result_bind_eq_ok.mp hrest
    obtain ⟨final', hrun, happly, hfilled⟩ := exists_closed rfl he (filled_of_apply hfill)
    obtain rfl : final' = final := Except.ok.inj (happly.symm.trans hcascade)
    have hwc := wellKeyed_of_apply (Legacy.wellKeyed_migrate hw) hfill
    have hwfinal := Step.wellKeyed_run (neat_closingSteps o) hwc hrun
    have hfilesFinal : final'.hasValue "files" = true := by
      rw [← hfiles]
      refine hasValue_congr (get?_congr ?_)
      obtain ⟨hdefaulting, hclosing⟩ := misses_advice ["files"] (by decide)
      rw [Cascade.find?_of_closing hrun hclosing, find?_apply_of_misses hfill (hdefaulting _ _), Legacy.find?_migrate (by decide)]
    obtain ⟨path, v, hblames⟩ := Configuration.blamed_of_ofTree hfilled hwfinal hfilesFinal hread
    have hruns := Step.run_append_eq_ok.mpr ⟨c, Defaults.apply_eq_ok.mp hfill, hrun⟩
    refine Blames.traced_run (fun s hs => ?_) hruns hblames
    rcases List.mem_append.mp hs with hs | hs
    · exact proper_steps _ s hs
    · exact proper_closingSteps o s hs

/-- A resolution without environments that fails under a key rejects the value that the key leads to. Only what the
    legacy field holds is rejected under the convention that it stands for; and of an error over a section in a
    section nothing is said but that the section is none. -/
theorem ofTree_rejects (hw : tree.WellKeyed) (he : o.environments = []) (h : ofTree {} o tree = .error e)
    (hkey : e.key? = some key) :
    (∃ v, tree.find? key = some v ∧ e.Rejects v) ∨
      (key = ["conventions", "ignored"] ∧ (∀ u, tree.find? key = some u → u.isNull = true) ∧
        ∃ v, tree.find? ["paths", "ignored"] = some v ∧ v.isNull = false ∧ e.Rejects v) ∨
      ∃ path ∈ nestedSections, ∃ v, tree.find? path = some v ∧ v.isNull = false ∧ v.isMapping = false ∧
        e = .structural key (.ofKind .mapping v) := by
  obtain ⟨config, rfl, hfiles, h⟩ := ofTree_eq_error h hkey
  rcases traced_of_configurationOf hw he hfiles h with ⟨path, v, hblames⟩ | ⟨v, hlegacy⟩ | hnested
  · obtain rfl : key = path := Option.some.inj (hkey.symm.trans hblames.key)
    exact .inl ⟨v, hblames.found, hblames.rejects⟩
  · obtain rfl : key = ["conventions", "ignored"] := Option.some.inj (hkey.symm.trans hlegacy.key)
    exact .inr (.inl ⟨rfl, hlegacy.unset, v, hlegacy.found, hlegacy.set, hlegacy.rejects⟩)
  · obtain ⟨v, path, hpath, hfound, hnull, hmapping, named, rfl⟩ := hnested
    obtain rfl : named = key := Option.some.inj hkey
    exact .inr (.inr ⟨path, hpath, v, hfound, hnull, hmapping, rfl⟩)

/-- A project with a port that is out of range. -/
def highPort : Value := .mapping [("files", .mapping []), ("server", .mapping [("port", .ofNat 70000)])]

theorem ofTree_rejects_highPort : ∃ e, ofTree {} {} highPort = .error e ∧ e.key? = some ["server", "port"] ∧
    ∃ v, highPort.find? ["server", "port"] = some v ∧ e.Rejects v := by
  have hfails : ofTree {} {} highPort = .error (.structural ["server", "port"] (.misshapen .port)) :=
    errorOf?_eq_some.mp (by decide +kernel)
  refine ⟨_, hfails, rfl, ?_⟩
  rcases ofTree_rejects (by decide) (by decide) hfails rfl with hnamed | ⟨hkey, -⟩ | ⟨path, hpath, v, hv, -⟩
  · exact hnamed
  · exact absurd hkey (by decide)
  · have hnone := (by decide : ∀ path ∈ nestedSections, highPort.find? path = none) path hpath
    rw [hnone] at hv
    cases hv

/-- A project that ignores paths by the legacy field, with a value that is no pattern. -/
def ignoredNumber : Value := .mapping [("files", .mapping []), ("paths", .mapping [("ignored", .ofNat 5)])]

theorem ofTree_ignoredNumber_unnamed : ignoredNumber.WellKeyed ∧ ({} : Options).environments = [] ∧
    ∃ e key, ofTree {} {} ignoredNumber = .error e ∧ e.key? = some key ∧
      ¬ ∃ path v, ignoredNumber.find? path = some v ∧ ConfigError.keyText path = ConfigError.keyText key := by
  have hfails : ofTree {} {} ignoredNumber = .error (.structural ["conventions", "ignored"] (.ofKind .pattern (.ofNat 5))) :=
    errorOf?_eq_some.mp (by decide +kernel)
  refine ⟨by decide, by decide, _, _, hfails, rfl, ?_⟩
  rintro ⟨path, v, hv, hkey⟩
  have hentry : ∀ {m : Mapping} {first rest}, m.find? (first :: rest) = some v → ∃ u, (first, u) ∈ m ∧ u.find? rest = some v := by
    intro m first rest hv
    obtain ⟨u, hu, hv⟩ := Option.bind_eq_some_iff.mp hv
    exact ⟨u, Entries.mem_of_get?_eq_some hu, hv⟩
  -- The tree has four values, and none of the paths to them reads like the key.
  have hpaths : path ∈ [[], ["files"], ["paths"], ["paths", "ignored"]] := by
    cases path with
    | nil => simp
    | cons first rest =>
      obtain ⟨u, hu, hv⟩ := hentry hv
      rcases List.mem_cons.mp hu with hfiles | hlegacy
      · cases hfiles
        cases rest with
        | nil => simp
        | cons second rest => cases hv
      · cases List.mem_singleton.mp hlegacy
        cases rest with
        | nil => simp
        | cons second rest =>
          obtain ⟨w, hw, hv⟩ := hentry hv
          cases List.mem_singleton.mp hw
          cases rest with
          | nil => simp
          | cons third rest => cases hv
  exact (by decide : ∀ path ∈ [[], ["files"], ["paths"], ["paths", "ignored"]],
    ConfigError.keyText path ≠ ConfigError.keyText ["conventions", "ignored"]) path hpaths hkey

end AssetPlan.Resolution
