import AssetPlan.Configuration
import AssetPlan.Proofs.Defaults.Agreement
import AssetPlan.Proofs.Defaults.Filled

/-! # What defaulting makes of sections that are not set

The steps of defaulting come in groups, each of which fills its own sections and looks at no more than a few
settings of the paths. So in a tree that leaves the sections out every group succeeds and makes what it makes of
an empty tree (`exists_fresh`). -/

namespace AssetPlan.Defaults
open Mapping Step
variable {d : Defaults} {inv : Invocation} {m e made c : Mapping} {steps : List Step} {keys : List String}
  {reads : List (String × String)} {hooks : Option Value}

/-! ### Values without a key twice -/

theorem neat_ok {f : Mapping → Value} (h : ∀ m, (f m).WellKeyed) :
    ∀ m v, (Value.mapping m).WellKeyed → (.ok (f m) : Except ConfigError Value) = .ok v → v.WellKeyed := by
  rintro m v - hv
  cases hv
  exact h m

theorem neat_ofSource (key : List String) (source : String) :
    ∀ m v, (Value.mapping m).WellKeyed → Value.ofSource key source = .ok v → v.WellKeyed := by
  rintro m v - hv
  unfold Value.ofSource at hv
  split at hv
  · cases hv
    exact trivial
  · cases hv

theorem wellKeyed_ignoredSources : ∀ patterns ∈ (ignoredSources.mapM (Value.ofSource ["conventions", "ignored"])).toOption,
    (Value.list patterns).WellKeyed := by decide +kernel

theorem neat_ignoredPatterns : ∀ m v, (Value.mapping m).WellKeyed → ignoredPatterns m = .ok v → v.WellKeyed := by
  intro m v hw hv
  unfold ignoredPatterns at hv
  split at hv
  · rename_i w hw'
    cases hv
    exact hw.find? (Option.filter_eq_some_iff.mp hw').1
  · cases hp : ignoredSources.mapM (Value.ofSource ["conventions", "ignored"]) with
    | error e =>
      rw [hp] at hv
      cases hv
    | ok patterns =>
      rw [hp] at hv
      cases hv
      exact wellKeyed_ignoredSources patterns (by rw [hp]; rfl)

theorem neat_watchedList : ∀ m v, (Value.mapping m).WellKeyed → watchedList m = .ok v → v.WellKeyed := by
  intro m v _ hv
  obtain ⟨texts, -, rfl⟩ := watchedList_eq_ok hv
  exact Value.wellKeyed_ofStrings texts

/-! ### What the values of the steps depend on -/

theorem textAt_pair (m : Mapping) (key below : String) :
    textAt m [key, below] = ((m.setAt? (key, below)).bind Value.string?).getD "" := by
  unfold textAt setAt?
  rw [Value.bind_filter_set rfl]

theorem watchedList_congr (h : m.setAt? ("paths", "watched") = e.setAt? ("paths", "watched")) :
    watchedList m = watchedList e := by
  unfold setAt? at h
  unfold watchedList
  rw [← Value.getD_filter_set, h, Value.getD_filter_set]

theorem readsSet_pathSteps (d : Defaults) (inv : Invocation) :
    ∀ s ∈ d.pathSteps inv, s.ReadsSet [("paths", "root"), ("paths", "watched")] := by
  have hunder : ∀ (f : (String → String) → Value) (m e : Mapping),
      (∀ q ∈ [("paths", "root"), ("paths", "watched")], m.setAt? q = e.setAt? q) →
      (.ok (f (underRoot m)) : Except ConfigError Value) = .ok (f (underRoot e)) := by
    intro f m e h
    have htext : underRoot m = underRoot e := by
      funext name
      unfold underRoot
      rw [textAt_pair, textAt_pair, h ("paths", "root") (by simp)]
    rw [htext]
  unfold pathSteps
  simp only [List.forall_mem_cons]
  refine ⟨trivial, fun _ _ _ => rfl, trivial, hunder fun under => .string (under d.publicDirectory), trivial,
    hunder fun under => .ofStrings (d.watchedDirectories.map under),
    fun m e h => watchedList_congr (h ("paths", "watched") (by simp)), ?_,
    hunder fun under => .string (under "package.json"), hunder fun under => .string (under "bower.json"), trivial,
    trivial, trivial, List.forall_mem_nil _⟩
  cases inv.configPath with
  | some path => exact fun _ _ _ => rfl
  | none => exact hunder fun under => .string (under d.configName)

theorem readsSet_conventionSteps : ∀ s ∈ conventionSteps, s.ReadsSet [("paths", "ignored")] := by
  unfold conventionSteps
  simp only [List.forall_mem_cons]
  refine ⟨trivial, fun _ _ _ => rfl, fun m e h => ?_, fun _ _ _ => rfl, List.forall_mem_nil _⟩
  have hignored : m.setAt? ("paths", "ignored") = e.setAt? ("paths", "ignored") := h _ (by simp)
  unfold setAt? at hignored
  unfold ignoredPatterns
  rw [hignored]

theorem readsSet_buildSteps (d : Defaults) : ∀ s ∈ d.buildSteps, s.ReadsSet [] := by
  unfold buildSteps
  simp only [List.forall_mem_cons]
  exact ⟨fun _ _ _ => rfl, fun _ _ _ => rfl, fun _ _ _ => rfl, fun _ _ _ => rfl, trivial, trivial, fun _ _ _ => rfl,
    trivial, fun _ _ _ => rfl, fun _ _ _ => rfl, fun _ _ _ => rfl, trivial, List.forall_mem_nil _⟩

theorem readsSet_served : (Step.write ["server"] "publicPath" served).ReadsSet [("paths", "public")] := by
  intro m e h
  unfold served
  rw [textAt_pair, textAt_pair, h ("paths", "public") (by simp)]

theorem readsSet_serverSteps (d : Defaults) (inv : Invocation) :
    ∀ s ∈ d.serverSteps inv, s.ReadsSet [("paths", "public")] := by
  unfold serverSteps
  simp only [List.forall_mem_append, List.forall_mem_cons]
  refine ⟨⟨trivial, readsSet_served, fun _ _ _ => rfl, fun _ _ _ => rfl, fun _ _ _ => rfl, fun _ _ _ => rfl,
    List.forall_mem_nil _⟩, ?_⟩
  cases inv.persistent with
  | true => exact List.forall_mem_nil _
  | false => exact List.forall_mem_singleton.mpr fun _ _ _ => rfl

theorem readsSet_environmentSteps : ∀ s ∈ environmentSteps, s.ReadsSet [] := by
  unfold environmentSteps
  simp only [List.forall_mem_cons]
  exact ⟨trivial, trivial, trivial, fun _ _ _ => rfl, fun _ _ _ => rfl, trivial, trivial, fun _ _ _ => rfl, trivial,
    fun _ _ _ => rfl, fun _ _ _ => rfl, List.forall_mem_nil _⟩

/-! ### Groups of steps -/

/-- Steps that fill some sections and look at some settings. -/
structure Group (steps : List Step) (keys : List String) (reads : List (String × String)) : Prop where
  sections : ∀ s ∈ steps, ∃ key ∈ keys, s.target.head? = some key
  reads : ∀ s ∈ steps, s.Reads reads
  neat : ∀ s ∈ steps, s.Neat

/-- Where a group finds nothing set it makes what it makes of a tree that holds nothing but the settings it looks
    at; the rest of the tree stays. -/
theorem Group.run (h : Group steps keys reads) (hunset : ∀ key ∈ keys, m.hasValue key = false)
    (hempty : ∀ key ∈ keys, e.hasValue key = false)
    (hsettings : ∀ q ∈ reads, q.1 ∉ keys → m.find? [q.1, q.2] = e.find? [q.1, q.2])
    (hrun : Step.run e steps = (made, none)) :
    ∃ m', Step.run m steps = (m', none) ∧ (∀ key ∈ keys, m'.set? key = made.set? key) ∧
      ∀ key, key ∉ keys → Entries.get? m' key = Entries.get? m key := by
  have hagree : Agree keys reads m e := by
    refine ⟨fun key hkey => ?_, hsettings⟩
    rw [set?_eq_none (hunset key hkey), set?_eq_none (hempty key hkey)]
  obtain ⟨m', hm', hagree'⟩ := hagree.run h.reads (fun s hs key hkey => by
    obtain ⟨t, ht, rfl⟩ := List.mem_map.mp hs
    obtain ⟨key', hkey', hhead⟩ := h.sections t ht
    obtain rfl : key' = key := Option.some.inj (hhead.symm.trans hkey)
    exact hkey') hrun
  refine ⟨m', hm', hagree'.sections, fun key hkey => ?_⟩
  refine get?_congr (find?_run_of_misses hm' fun outline houtline => ?_)
  obtain ⟨s, hs, rfl⟩ := List.mem_map.mp houtline
  obtain ⟨first, hfirst, hhead⟩ := h.sections s hs
  obtain ⟨rest, htarget⟩ := List.head?_eq_some_iff.mp hhead
  have hne : ¬ first = key := fun heq => hkey (heq ▸ hfirst)
  have houtline : s.outline.2 = first :: rest := htarget
  unfold Misses
  rw [houtline]
  exact ⟨fun hp => hne (List.cons_prefix_cons.mp hp).1.symm, fun _ hp => hne (List.cons_prefix_cons.mp hp).1⟩

theorem group_pathSteps (d : Defaults) (inv : Invocation) :
    Group (d.pathSteps inv) ["paths"] [("paths", "root"), ("paths", "watched")] where
  sections := by
    cases h : inv.configPath <;> simp [pathSteps, h, target]
  reads := fun s hs => (readsSet_pathSteps d inv s hs).reads
  neat := by
    unfold pathSteps
    simp only [List.forall_mem_cons]
    refine ⟨trivial, neat_ok fun _ => trivial, trivial, neat_ok fun _ => trivial, trivial,
      neat_ok fun _ => Value.wellKeyed_ofStrings _, neat_watchedList, ?_, neat_ok fun _ => trivial,
      neat_ok fun _ => trivial, trivial, trivial, trivial, List.forall_mem_nil _⟩
    cases inv.configPath with
    | some path => exact neat_ok fun _ => trivial
    | none => exact neat_ok fun _ => trivial

theorem group_conventionSteps : Group conventionSteps ["conventions"] [("paths", "ignored")] where
  sections := by simp [conventionSteps, target]
  reads := fun s hs => (readsSet_conventionSteps s hs).reads
  neat := by
    unfold conventionSteps
    simp only [List.forall_mem_cons]
    exact ⟨trivial, neat_ofSource _ _, neat_ignoredPatterns, neat_ofSource _ _, List.forall_mem_nil _⟩

/-- The sections and flags that the middle group fills. -/
def buildKeys : List String :=
  ["notifications", "sourceMaps", "optimize", "fileListInterval", "plugins", "watcher", "modules"]

theorem group_buildSteps (d : Defaults) : Group d.buildSteps buildKeys [] where
  sections := by simp [buildSteps, buildKeys, target]
  reads := fun s hs => (readsSet_buildSteps d s hs).reads
  neat := by
    unfold buildSteps
    simp only [List.forall_mem_cons]
    exact ⟨neat_ok fun _ => trivial, neat_ok fun _ => trivial, neat_ok fun _ => trivial, neat_ok fun _ => trivial, trivial,
      trivial, neat_ok fun _ => trivial, trivial, neat_ok fun _ => trivial, neat_ok fun _ => trivial,
      neat_ofSource _ _, trivial, List.forall_mem_nil _⟩

theorem group_serverSteps (d : Defaults) (inv : Invocation) : Group (d.serverSteps inv) ["server"] [("paths", "public")] where
  sections := by
    cases h : inv.persistent <;> simp [serverSteps, h, target]
  reads := fun s hs => (readsSet_serverSteps d inv s hs).reads
  neat := by
    unfold serverSteps
    simp only [List.forall_mem_append, List.forall_mem_cons]
    refine ⟨⟨trivial, neat_ok fun _ => trivial, neat_ok fun _ => trivial, neat_ok fun _ => trivial,
      neat_ok fun _ => trivial, neat_ok fun _ => trivial, List.forall_mem_nil _⟩, ?_⟩
    cases inv.persistent with
    | true => exact List.forall_mem_nil _
    | false => exact List.forall_mem_singleton.mpr (neat_ok fun _ => trivial)

theorem group_environmentSteps : Group (environmentSteps.drop 1) ["overrides", "npm"] [] where
  sections := by simp [environmentSteps, target]
  reads := fun s hs => (readsSet_environmentSteps s (List.mem_of_mem_drop hs)).reads
  neat := by
    unfold environmentSteps
    simp only [List.drop_succ_cons, List.drop_zero, List.forall_mem_cons]
    exact ⟨trivial, trivial, neat_ok fun _ => trivial, neat_ok fun _ => trivial, trivial, trivial,
      neat_ok fun _ => trivial, trivial, neat_ok fun _ => trivial, neat_ok fun _ => trivial, List.forall_mem_nil _⟩

theorem neat_steps (d : Defaults) (inv : Invocation) : ∀ s ∈ d.steps inv, s.Neat := by
  unfold steps
  simp only [List.forall_mem_append]
  refine ⟨⟨⟨⟨(group_pathSteps d inv).neat, group_conventionSteps.neat⟩, (group_buildSteps d).neat⟩,
    (group_serverSteps d inv).neat⟩, ?_⟩
  exact List.forall_mem_cons.mpr ⟨trivial, group_environmentSteps.neat⟩

theorem wellKeyed_of_apply (hw : (Value.mapping m).WellKeyed) (h : d.apply inv m = .ok c) : (Value.mapping c).WellKeyed :=
  wellKeyed_run (neat_steps d inv) hw (apply_eq_ok.mp h)

/-! ### What the groups make of nothing -/

/-- The paths that defaulting makes. -/
def freshPaths (inv : Invocation) : Mapping := [
  ("root", .string "."), ("public", .string "public"), ("watched", .ofStrings ["app", "test", "vendor"]),
  ("config", .string (inv.configPath.getD "buildconf")), ("packageConfig", .string "package.json"),
  ("bowerConfig", .string "bower.json")]

/-- The server that defaulting makes. -/
def freshServer : Mapping := [
  ("publicPath", .string "public"), ("base", .string ""), ("port", .ofNat 3333), ("hostname", .string "localhost"),
  ("run", .bool false)]

/-- The layer of production builds that defaulting makes. -/
def productionLayer : Mapping := [
  ("optimize", .bool true), ("sourceMaps", .bool false),
  ("plugins", .mapping [("autoReload", .mapping [("enabled", .bool false)])])]

theorem run_pathSteps (inv : Invocation) :
    Step.run [] (({} : Defaults).pathSteps inv) = ([("paths", .mapping (freshPaths inv))], none) := by
  obtain ⟨path, persistent⟩ := inv
  cases path <;> rfl

theorem run_serverSteps (inv : Invocation) :
    Step.run [("paths", .mapping [("public", .string "public")])] (({} : Defaults).serverSteps inv) =
      ([("paths", .mapping [("public", .string "public")]), ("server", .mapping freshServer)], none) := by
  obtain ⟨path, persistent⟩ := inv
  cases persistent <;> rfl

/-- The conventions that defaulting makes. -/
def freshConventions : Mapping := (Step.run [] conventionSteps).1.child "conventions"

theorem run_conventionSteps : Step.run [] conventionSteps = ([("conventions", .mapping freshConventions)], none) := rfl

/-- The settings of modules that defaulting makes. -/
def freshModules : Mapping := (Step.run [] ({} : Defaults).buildSteps).1.child "modules"

/-- The flags and sections that the middle group makes. -/
def freshBuild : Mapping := [
  ("notifications", .bool true), ("sourceMaps", .bool true), ("optimize", .bool false),
  ("fileListInterval", .ofNat 65), ("plugins", .mapping []), ("watcher", .mapping [("usePolling", .bool false)]),
  ("modules", .mapping freshModules)]

theorem run_buildSteps : Step.run [] ({} : Defaults).buildSteps = (freshBuild, none) := rfl

/-- The sections that the last group makes. -/
def freshEnvironment : Mapping := [
  ("overrides", .mapping [("production", .mapping productionLayer)]),
  ("npm", .mapping [("enabled", .bool true), ("static", .list [])])]

theorem run_environmentSteps : Step.run [] (environmentSteps.drop 1) = (freshEnvironment, none) := rfl

/-! ### All groups -/

/-- All that defaulting makes but for the hooks. -/
def fresh (inv : Invocation) : Mapping :=
  [("paths", .mapping (freshPaths inv))] ++ [("conventions", .mapping freshConventions)] ++ freshBuild ++
    [("server", .mapping freshServer)] ++ freshEnvironment

/-- The flags and sections that defaulting makes but for the hooks. -/
def freshKeys : List String := ["paths", "conventions"] ++ buildKeys ++ ["server", "overrides", "npm"]

/-- A tree in which some sections have been made and the others are still to be made, and what stands for its
    hooks. -/
structure Stage (hooks : Option Value) (made m : Mapping) : Prop where
  entries : ∀ entry ∈ made, Entries.get? m entry.1 = some entry.2
  unset : ∀ key ∈ freshKeys, key ∉ Entries.keys made → m.hasValue key = false
  hooks : Entries.get? m "hooks" = hooks

theorem Stage.get?_of_made (h : Stage hooks made m) {key : String} {v : Value} (hv : Entries.get? made key = some v) :
    Entries.get? m key = some v := h.entries (key, v) (Entries.mem_of_get?_eq_some hv)

/-- A group takes a tree to the next stage. -/
theorem Stage.run (h : Stage hooks made m) (more : Mapping) (hgroup : Group steps (Entries.keys more) reads)
    (hrun : Step.run e steps = (e ++ more, none))
    (hkeys : ∀ key ∈ Entries.keys more, key ∈ freshKeys ∧ key ∉ Entries.keys made)
    (hempty : ∀ key ∈ Entries.keys more, Entries.get? e key = none) (hmore : Entries.WellKeyed more)
    (hset : ∀ entry ∈ more, entry.2.isNull = false)
    (hsettings : ∀ q ∈ reads, q.1 ∉ Entries.keys more → m.find? [q.1, q.2] = e.find? [q.1, q.2]) :
    ∃ m', Step.run m steps = (m', none) ∧ Stage hooks (made ++ more) m' := by
  have hnone : ∀ key ∈ Entries.keys more, e.hasValue key = false := by
    intro key hkey
    unfold hasValue
    rw [hempty key hkey]
    rfl
  obtain ⟨m', hm', hmade, hkept⟩ := hgroup.run
    (fun key hkey => h.unset key (hkeys key hkey).1 (hkeys key hkey).2) hnone hsettings hrun
  refine ⟨m', hm', ?entries, ?unset, ?hooks⟩
  case entries =>
    intro entry hentry
    rcases List.mem_append.mp hentry with hold | hnew
    · have hout : entry.1 ∉ Entries.keys more :=
        fun hin => (hkeys _ hin).2 (List.mem_map.mpr ⟨entry, hold, rfl⟩)
      rw [hkept _ hout]
      exact h.entries entry hold
    -- What this group makes of the tree is what it makes of the settings alone.
    · have hin : entry.1 ∈ Entries.keys more := List.mem_map.mpr ⟨entry, hnew, rfl⟩
      refine (set?_eq_some.mp ((hmade _ hin).trans (set?_eq_some.mpr ⟨?_, hset entry hnew⟩))).1
      rw [Entries.get?_append, hempty _ hin]
      exact Entries.get?_of_mem hmore hnew
  case unset =>
    intro key hkey hout
    have hsplit : key ∉ Entries.keys made ∧ key ∉ Entries.keys more := by
      unfold Entries.keys at hout ⊢
      rw [List.map_append, List.mem_append] at hout
      exact ⟨fun hin => hout (.inl hin), fun hin => hout (.inr hin)⟩
    rw [hasValue_congr (hkept key hsplit.2)]
    exact h.unset key hkey hsplit.1
  case hooks =>
    rw [hkept "hooks" fun hin => (by decide : "hooks" ∉ freshKeys) (hkeys "hooks" hin).1]
    exact h.hooks

/-- Opening the hooks makes nothing else. -/
theorem Stage.openHooks (h : Stage hooks made m) (hmade : ∀ key ∈ Entries.keys made, key ∈ freshKeys)
    (hshape : ∀ v, hooks = some v → v.isNull = true ∨ v.isMapping = true) :
    ∃ m' fields, (Step.openSection [] "hooks").apply m = .ok m' ∧ Stage (some (.mapping fields)) made m' := by
  -- The hooks may stand there already, as a mapping or as null.
  have hfields : ∃ fields, m.fields? "hooks" = .ok fields := by
    unfold fields?
    rw [h.hooks]
    cases hooks with
    | none => exact ⟨_, rfl⟩
    | some v =>
      cases v with
      | null | mapping es => exact ⟨_, rfl⟩
      | _ => rcases hshape _ rfl with hv | hv <;> cases hv
  obtain ⟨fields, hfields⟩ := hfields
  have hother : ∀ key ∈ freshKeys, Entries.get? (Entries.insert m "hooks" (.mapping fields)) key = Entries.get? m key := by
    intro key hkey
    refine Entries.get?_insert_of_ne (fun heq => ?_) m _
    exact (by decide : "hooks" ∉ freshKeys) (heq ▸ hkey)
  refine ⟨Entries.insert m "hooks" (.mapping fields), fields, bind_eq_ok.mpr ⟨fields, hfields, rfl⟩, ?entries, ?unset,
    Entries.get?_insert_self _ _ _⟩
  case entries =>
    intro entry hentry
    rw [hother _ (hmade _ (List.mem_map_of_mem hentry))]
    exact h.entries entry hentry
  case unset =>
    intro key hkey hout
    rw [hasValue_congr (hother key hkey)]
    exact h.unset key hkey hout

/-- Defaulting succeeds where nothing is set. -/
theorem exists_fresh (inv : Invocation) (hunset : ∀ key ∈ freshKeys, m.hasValue key = false)
    (hhooks : ∀ v, Entries.get? m "hooks" = some v → v.isNull = true ∨ v.isMapping = true) :
    ∃ c fields, Defaults.apply {} inv m = .ok c ∧ Stage (some (.mapping fields)) (fresh inv) c := by
  have hstart : Stage (Entries.get? m "hooks") [] m := ⟨nofun, fun key hkey _ => hunset key hkey, rfl⟩
  obtain ⟨m₁, hrun₁, h₁⟩ := hstart.run _ (group_pathSteps {} inv) (run_pathSteps inv)
    (by decide : ∀ key ∈ ["paths"], key ∈ freshKeys ∧ key ∉ []) (fun _ _ => rfl) (by decide : ["paths"].Nodup)
    (List.forall_mem_singleton.mpr rfl)
    fun q hq hout => absurd ((by decide : ∀ q ∈ [("paths", "root"), ("paths", "watched")], q.1 ∈ ["paths"]) q hq) hout
  have hpaths₁ : Entries.get? m₁ "paths" = some (.mapping (freshPaths inv)) := h₁.get?_of_made rfl
  obtain ⟨m₂, hrun₂, h₂⟩ := h₁.run _ group_conventionSteps run_conventionSteps
    (by decide : ∀ key ∈ ["conventions"], key ∈ freshKeys ∧ key ∉ ["paths"]) (fun _ _ => rfl)
    (by decide : ["conventions"].Nodup) (List.forall_mem_singleton.mpr rfl)
    (List.forall_mem_singleton.mpr fun _ => find?_of_get? hpaths₁ _)
  obtain ⟨m₃, hrun₃, h₃⟩ := h₂.run _ (group_buildSteps {}) run_buildSteps
    (by decide : ∀ key ∈ buildKeys, key ∈ freshKeys ∧ key ∉ ["paths", "conventions"]) (fun _ _ => rfl)
    (by decide : buildKeys.Nodup) (by simp [Value.ofNat, Value.isNull]) (List.forall_mem_nil _)
  have hpaths₃ : Entries.get? m₃ "paths" = some (.mapping (freshPaths inv)) := h₃.get?_of_made rfl
  obtain ⟨m₄, hrun₄, h₄⟩ := h₃.run [("server", .mapping freshServer)] (group_serverSteps {} inv)
    (run_serverSteps inv)
    (by decide : ∀ key ∈ ["server"], key ∈ freshKeys ∧ key ∉ ["paths", "conventions"] ++ buildKeys)
    (List.forall_mem_singleton.mpr rfl) (by decide : ["server"].Nodup) (List.forall_mem_singleton.mpr rfl)
    (List.forall_mem_singleton.mpr fun _ => find?_of_get? hpaths₃ _)
  -- The hooks belong to no group, since a legacy hook may have been written there.
  obtain ⟨m₅, fields, happly₅, h₅⟩ := h₄.openHooks
    (by decide : ∀ key ∈ ["paths", "conventions"] ++ buildKeys ++ ["server"], key ∈ freshKeys) hhooks
  obtain ⟨c, hrun₆, h₆⟩ := h₅.run _ group_environmentSteps run_environmentSteps
    (by decide : ∀ key ∈ ["overrides", "npm"], key ∈ freshKeys ∧ key ∉ ["paths", "conventions"] ++ buildKeys ++ ["server"])
    (fun _ _ => rfl) (by decide : ["overrides", "npm"].Nodup) (by simp [Value.isNull]) (List.forall_mem_nil _)
  refine ⟨c, fields, apply_eq_ok.mpr ?_, h₆⟩
  have hrun := run_append_eq_ok.mpr ⟨m₁, hrun₁, hrun₂⟩
  have hrun := run_append_eq_ok.mpr ⟨m₂, hrun, hrun₃⟩
  have hrun := run_append_eq_ok.mpr ⟨m₃, hrun, hrun₄⟩
  exact run_append_eq_ok.mpr ⟨m₄, hrun, run_cons_eq_ok.mpr ⟨m₅, happly₅, hrun₆⟩⟩

end AssetPlan.Defaults
