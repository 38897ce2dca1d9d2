import AssetPlan.Defaults
import AssetPlan.Proofs.Configuration
import AssetPlan.Proofs.Defaults.Step

/-! # Filled configurations

A configuration is `Filled` if every step of defaulting is settled in it. Defaulting gives such a configuration,
and changes nothing in one. Of all steps only the one that sets the server's output directory is not steady: it
follows the paths, wherever they point. -/

namespace AssetPlan.Defaults
open Mapping Step
variable {d : Defaults} {inv : Invocation} {m m' c : Mapping} {s : Step} {v : Value}

/-! ### The values of the steps -/

theorem fillable_ok {f : Mapping → Value} (h : ∀ m, (f m).isNull = false) : Fillable fun m => .ok (f m) where
  isNull := by
    rintro m v hv
    cases hv
    exact h m
  again m m' v _ := ⟨f m', rfl⟩

theorem fillable_ofSource (key : List String) (source : String) : Fillable fun _ => Value.ofSource key source where
  isNull := by
    intro m v hv
    unfold Value.ofSource at hv
    split at hv
    · cases hv
      rfl
    · cases hv
  again m m' v hv := ⟨v, hv⟩

theorem isOk_ignoredSources : (ignoredSources.mapM (Value.ofSource ["conventions", "ignored"])).isOk = true := by
  decide +kernel

theorem fillable_ignoredPatterns : Fillable ignoredPatterns where
  isNull := by
    intro m v hv
    unfold ignoredPatterns at hv
    split at hv
    · rename_i w hw
      cases hv
      have hset := (Option.filter_eq_some_iff.mp hw).2
      exact (Bool.not_eq_true' _).mp hset
    · cases hp : ignoredSources.mapM (Value.ofSource ["conventions", "ignored"]) with
      | error e =>
        rw [hp] at hv
        cases hv
      | ok patterns =>
        rw [hp] at hv
        cases hv
        rfl
  again := by
    intro m m' v _
    obtain ⟨patterns, hp⟩ := exists_ok_of_isOk isOk_ignoredSources
    unfold ignoredPatterns
    split
    · exact ⟨_, rfl⟩
    · rw [hp]
      exact ⟨_, rfl⟩

/-- Watched directories are read as they were written. -/
theorem watched_ofStrings {texts : List String} (h : texts ≠ []) : (Value.ofStrings texts).watched = .ok texts :=
  Value.watched_eq_ok.mpr (.inr ⟨h, rfl⟩)

theorem watchedList_eq_ok (h : watchedList m = .ok v) :
    ∃ texts, texts ≠ [] ∧ v = .ofStrings texts := by
  obtain ⟨texts, htexts, h⟩ := bind_eq_ok.mp h
  cases h
  exact ⟨texts, Value.watched_ne_nil htexts, rfl⟩

theorem steady_watchedList : (Step.write ["paths"] "watched" watchedList).Steady := by
  intro m m' v hv hfound
  obtain ⟨texts, hne, rfl⟩ := watchedList_eq_ok hv
  change m'.find? ["paths", "watched"] = _ at hfound
  unfold watchedList
  rw [hfound, Option.getD_some, watched_ofStrings hne]
  rfl

theorem sound_write_ok {path : List String} {key : String} {f : Mapping → Value}
    (h : ∀ m, (f m).isNull = false ∧ (f m).isMapping = false) : (Step.write path key fun m => .ok (f m)).Sound := by
  intro m v hv
  cases hv
  exact h m

theorem steady_write_constant (path : List String) (key : String) (v : Value) :
    (Step.write path key (constant v)).Steady := fun _ _ _ hv _ => hv

/-! ### The steps -/

theorem sound_pathSteps (d : Defaults) (inv : Invocation) : ∀ s ∈ d.pathSteps inv, s.Sound := by
  unfold pathSteps
  simp only [List.forall_mem_cons]
  refine ⟨trivial, fillable_ok fun _ => rfl, trivial, fillable_ok fun _ => rfl, trivial, fillable_ok fun _ => rfl, ?_, ?_,
    fillable_ok fun _ => rfl, fillable_ok fun _ => rfl, trivial, trivial, trivial, nofun⟩
  · intro m v hv
    obtain ⟨texts, -, rfl⟩ := watchedList_eq_ok hv
    exact ⟨rfl, rfl⟩
  · cases inv.configPath with
    | some path => exact sound_write_ok fun _ => ⟨rfl, rfl⟩
    | none => exact fillable_ok fun _ => rfl

theorem sound_conventionSteps : ∀ s ∈ conventionSteps, s.Sound := by
  unfold conventionSteps
  simp only [List.forall_mem_cons]
  exact ⟨trivial, fillable_ofSource _ _, fillable_ignoredPatterns, fillable_ofSource _ _, nofun⟩

theorem sound_buildSteps (d : Defaults) : ∀ s ∈ d.buildSteps, s.Sound := by
  unfold buildSteps
  simp only [List.forall_mem_cons]
  exact ⟨fillable_ok fun _ => rfl, fillable_ok fun _ => rfl, fillable_ok fun _ => rfl, fillable_ok fun _ => rfl, trivial,
    trivial, fillable_ok fun _ => rfl, trivial, fillable_ok fun _ => rfl, fillable_ok fun _ => rfl,
    fillable_ofSource _ _, trivial, nofun⟩

theorem sound_serverSteps (d : Defaults) (inv : Invocation) : ∀ s ∈ d.serverSteps inv, s.Sound := by
  unfold serverSteps
  simp only [List.forall_mem_append, List.forall_mem_cons]
  refine ⟨⟨trivial, sound_write_ok fun _ => ⟨rfl, rfl⟩, fillable_ok fun _ => rfl, fillable_ok fun _ => rfl,
    fillable_ok fun _ => rfl, fillable_ok fun _ => rfl, nofun⟩, ?_⟩
  cases inv.persistent with
  | true => exact nofun
  | false => exact List.forall_mem_singleton.mpr (sound_write_ok fun _ => ⟨rfl, rfl⟩)

theorem sound_environmentSteps : ∀ s ∈ environmentSteps, s.Sound := by
  unfold environmentSteps
  simp only [List.forall_mem_cons]
  exact ⟨trivial, trivial, trivial, fillable_ok fun _ => rfl, fillable_ok fun _ => rfl, trivial, trivial,
    fillable_ok fun _ => rfl, trivial, fillable_ok fun _ => rfl, fillable_ok fun _ => rfl, nofun⟩

theorem sound_steps (d : Defaults) (inv : Invocation) : ∀ s ∈ d.steps inv, s.Sound := by
  unfold steps
  simp only [List.forall_mem_append]
  exact ⟨⟨⟨⟨sound_pathSteps d inv, sound_conventionSteps⟩, sound_buildSteps d⟩, sound_serverSteps d inv⟩,
    sound_environmentSteps⟩

/-- What the steps do, given whether a file was loaded and whether the build goes on watching. -/
def outlines (loaded persistent : Bool) : List (Manner × List String) :=
  (({} : Defaults).steps ⟨if loaded then some "" else none, persistent⟩).map outline

theorem outline_steps (d : Defaults) (inv : Invocation) :
    (d.steps inv).map outline = outlines inv.configPath.isSome inv.persistent := by
  obtain ⟨path, persistent⟩ := inv
  cases path <;> cases persistent <;>
    simp only [outlines, steps, pathSteps, conventionSteps, buildSteps, serverSteps, environmentSteps, List.map_append,
      List.map_cons, List.map_nil, outline, manner, target, Option.isSome, if_true, Bool.false_eq_true, if_false]

theorem spares_outlines : ∀ loaded persistent,
    (outlines loaded persistent).Pairwise fun s later => Spares later s := by decide +kernel

/-- The server's output directory as the paths say. -/
def served (config : Mapping) : Except ConfigError Value := .ok (.string (textAt config ["paths", "public"]))

/-- Whether a step writes over what stands there. -/
def overwrites : Step → Bool
  | .write _ _ _ => true
  | _ => false

theorem filter_overwrites (d : Defaults) (inv : Invocation) : (d.steps inv).filter overwrites =
    [.write ["paths"] "watched" watchedList] ++
      (inv.configPath.toList.map fun path => .write ["paths"] "config" (constant (.string path))) ++
      [.write ["server"] "publicPath" served] ++
      (if inv.persistent then [] else [.write ["server"] "run" (constant (.bool false))]) := by
  obtain ⟨path, persistent⟩ := inv
  cases path <;> cases persistent <;> rfl

theorem write_cases (hs : s ∈ d.steps inv) (hw : s.manner = .writes) :
    s = .write ["paths"] "watched" watchedList ∨ (∃ path, s = .write ["paths"] "config" (constant (.string path))) ∨
      s = .write ["server"] "publicPath" served ∨
      inv.persistent = false ∧ s = .write ["server"] "run" (constant (.bool false)) := by
  have hwrites : overwrites s = true := by
    cases s with
    | write path key value => rfl
    | _ => cases hw
  have hmem : s ∈ (d.steps inv).filter overwrites := List.mem_filter.mpr ⟨hs, hwrites⟩
  rw [filter_overwrites] at hmem
  simp only [List.mem_append, List.mem_singleton, List.mem_map] at hmem
  rcases hmem with ((rfl | ⟨path, -, rfl⟩) | rfl) | hrun
  · exact .inl rfl
  · exact .inr (.inl ⟨path, rfl⟩)
  · exact .inr (.inr (.inl rfl))
  · split at hrun
    · cases hrun
    · rename_i hp
      exact .inr (.inr (.inr ⟨Bool.eq_false_iff.mpr hp, List.mem_singleton.mp hrun⟩))

theorem steady_of_manner (h : s.manner ≠ .writes) : s.Steady := by
  cases s with
  | write path key value => exact absurd rfl h
  | _ => exact trivial

/-- Only the step of the server's output directory need not write its value again. -/
theorem steady_or_served (hs : s ∈ d.steps inv) : s.Steady ∨ s = .write ["server"] "publicPath" served := by
  by_cases hw : s.manner = .writes
  · rcases write_cases hs hw with rfl | ⟨path, rfl⟩ | rfl | ⟨-, rfl⟩
    · exact .inl steady_watchedList
    · exact .inl (steady_write_constant _ _ _)
    · exact .inr rfl
    · exact .inl (steady_write_constant _ _ _)
  · exact .inl (steady_of_manner hw)

/-! ### Filled configurations -/

/-- Every step of defaulting is settled. -/
def Filled (d : Defaults) (inv : Invocation) (c : Mapping) : Prop := ∀ s ∈ d.steps inv, s.Settled c

theorem apply_eq_ok : d.apply inv m = .ok c ↔ Step.run m (d.steps inv) = (c, none) := by
  unfold apply fill
  generalize Step.run m (d.steps inv) = outcome
  obtain ⟨config, e⟩ := outcome
  cases e with
  | none =>
    constructor
    · intro h
      cases h
      rfl
    · intro h
      cases h
      rfl
  | some e =>
    constructor
    · intro h
      cases h
    · intro h
      cases h

theorem find?_apply_of_misses (h : d.apply inv m = .ok c) {q : List String}
    (hq : ∀ s ∈ outlines inv.configPath.isSome inv.persistent, Misses q s) : c.find? q = m.find? q := by
  rw [← outline_steps d] at hq
  exact find?_run_of_misses (apply_eq_ok.mp h) hq

theorem Filled.apply (h : d.Filled inv c) : d.apply inv c = .ok c := apply_eq_ok.mpr (run_of_settled h)

/-- The steps after the one that sets the server's output directory. -/
def stepsAfterServed (d : Defaults) (persistent : Bool) : List Step :=
  (d.serverSteps ⟨none, persistent⟩).drop 2 ++ environmentSteps

theorem outline_stepsAfterServed (d : Defaults) (persistent : Bool) :
    (d.stepsAfterServed persistent).map outline = (stepsAfterServed {} persistent).map outline := by
  cases persistent <;> rfl

/-- No later step changes the output directory or that of the server. -/
theorem stepsAfterServed_free : ∀ persistent,
    (∀ target ∈ ((stepsAfterServed {} persistent).map outline).flatMap written, ¬ target <+: ["server", "publicPath"]) ∧
    ∀ s ∈ (Manner.writes, ["server", "publicPath"]) :: (stepsAfterServed {} persistent).map outline,
      Misses ["paths", "public"] s := by decide +kernel

theorem settled_served (h : Step.run m (d.steps inv) = (c, none)) :
    (Step.write ["server"] "publicPath" served).Settled c := by
  have hsplit : d.steps inv = (d.pathSteps inv ++ conventionSteps ++ d.buildSteps ++ [.openSection [] "server"]) ++
      .write ["server"] "publicPath" served :: d.stepsAfterServed inv.persistent := by
    obtain ⟨path, persistent⟩ := inv
    cases path <;> cases persistent <;> rfl
  obtain ⟨hfree, hmisses⟩ := stepsAfterServed_free inv.persistent
  rw [← outline_stepsAfterServed d] at hfree hmisses
  rw [hsplit] at h
  obtain ⟨mid, v, hv, hfound, hlater⟩ := find?_run_write h (sound_write_ok fun _ => ⟨rfl, rfl⟩) hfree
  refine ⟨v, ?_, hfound⟩
  rw [← hv]
  unfold served textAt
  rw [hlater _ hmisses]

/-- Defaulting settles all its steps. -/
theorem filled_of_apply (h : d.apply inv m = .ok c) : d.Filled inv c := by
  intro s hs
  have hrun := apply_eq_ok.mp h
  rcases steady_or_served hs with hsteady | rfl
  · have hspares := spares_outlines inv.configPath.isSome inv.persistent
    rw [← outline_steps d] at hspares
    exact settled_run hrun (sound_steps d inv) hspares hs hsteady
  · exact settled_served hrun

namespace Filled

theorem find?_public (h : d.Filled inv c) : ∃ text, c.find? ["paths", "public"] = some (.string text) :=
  h (.requireText ["paths"] "public") (by simp [steps, pathSteps])

/-- The server of a filled configuration serves the output directory. -/
theorem find?_served (h : d.Filled inv c) {text : String} (hpublic : c.find? ["paths", "public"] = some (.string text)) :
    c.find? ["server", "publicPath"] = some (.string text) := by
  have hmem : .write ["server"] "publicPath" served ∈ d.serverSteps inv :=
    List.mem_append_left _ (List.mem_cons_of_mem _ List.mem_cons_self)
  obtain ⟨v, hv, hfound⟩ := h (.write ["server"] "publicPath" served) (by simp [steps, hmem])
  unfold served textAt at hv
  rw [hpublic] at hv
  cases hv
  exact hfound

theorem find?_run (h : d.Filled inv c) (hp : inv.persistent = false) :
    c.find? ["server", "run"] = some (.bool false) := by
  obtain ⟨v, hv, hfound⟩ := h (.write ["server"] "run" (constant (.bool false))) (by simp [steps, serverSteps, hp])
  cases hv
  exact hfound

/-- The path that a configuration was read from stands in it. -/
theorem find?_config (h : d.Filled inv c) {path : String} (hpath : inv.configPath = some path) :
    c.find? ["paths", "config"] = some (.string path) := by
  obtain ⟨v, hv, hfound⟩ := h (.write ["paths"] "config" (constant (.string path))) (by simp [steps, pathSteps, hpath])
  cases hv
  exact hfound

theorem get?_section (h : d.Filled inv c) (key : String) (hkey : .openSection [] key ∈ d.steps inv) :
    ∃ fields, Entries.get? c key = some (.mapping fields) := by
  obtain ⟨fields, hfields⟩ := h _ hkey
  exact ⟨fields, (find?_singleton c key).symm.trans hfields⟩

end Filled
end AssetPlan.Defaults
