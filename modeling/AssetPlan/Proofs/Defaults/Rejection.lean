import AssetPlan.Proofs.Cascade.Invocation
import AssetPlan.Proofs.Defaults.Origin

/-! # Rejected values come from the tree that was read

No reader rejects what defaulting writes: every default has the shape that its setting is read by. So if an error
blames a value of a tree that was filled, the value stood there before; only the convention for ignored paths may have
been taken over from the legacy field (`Blames.run`). -/

namespace AssetPlan
open Mapping

namespace Defaults

/-- The sections and settings that defaulting knows, with the shapes by which they are read. -/
def shapes : Entries (List String) Shape :=
  [["paths"], ["conventions"], ["plugins"], ["watcher"], ["modules"], ["modules", "autoRequire"], ["server"], ["hooks"],
    ["overrides"], ["overrides", "production"], ["overrides", "production", "plugins"],
    ["overrides", "production", "plugins", "autoReload"], ["npm"]].map (·, .mapping) ++
  [["paths", "root"], ["paths", "public"], ["paths", "config"], ["paths", "packageConfig"], ["paths", "bowerConfig"],
    ["server", "publicPath"], ["server", "base"], ["server", "hostname"]].map (·, .string) ++
  [["notifications"], ["sourceMaps"], ["optimize"], ["persistent"], ["watcher", "usePolling"], ["server", "run"],
    ["npm", "enabled"], ["overrides", "production", "optimize"], ["overrides", "production", "sourceMaps"],
    ["overrides", "production", "plugins", "autoReload", "enabled"]].map (·, .boolean) ++
  [["conventions", "assets"], ["conventions", "ignored"], ["conventions", "vendor"]].map (·, .pattern) ++
  [["modules", "wrapper"], ["modules", "definition"]].map (·, .moduleFormat) ++
  [(["paths", "watched"], .strings), (["modules", "nameCleaner"], .regex), (["server", "port"], .port),
    (["npm", "static"], .moduleNames), (["fileListInterval"], .milliseconds)]

/-- A value that no reader of a known setting rejects. -/
def Welcome (path : List String) (v : Value) : Prop := ∃ shape, Entries.get? shapes path = some shape ∧ shape.Admits v

/-- The settings that may hold a value from elsewhere: the hooks, and the convention for ignored paths. -/
def inheriting : List (List String) := [["hooks"], ["conventions", "ignored"]]

/-- An error rejects a value of a tree and names the path to it. If the setting is known, its shape is what the error
    asks for; and the path ends where a value from elsewhere may stand. -/
structure Blames (m : Mapping) (e : ConfigError) (path : List String) (v : Value) : Prop where
  key : e.key? = some path
  found : m.find? path = some v
  rejects : e.Rejects v
  ne_nil : path ≠ []
  wanted : ∀ shape, Entries.get? shapes path = some shape → e.wanted? = some shape
  ends : ∀ front ∈ inheriting, front <+: path → path = front

/-- The shape by which a setting is read, if it is known at all, at a path where no value from elsewhere begins. -/
def Known (path : List String) (shape : Shape) : Prop :=
  path ≠ [] ∧ (∀ known ∈ (Entries.get? shapes path).toList, known = shape) ∧ ∀ front ∈ inheriting, front <+: path → path = front

instance (path : List String) (shape : Shape) : Decidable (Known path shape) := inferInstanceAs (Decidable (_ ∧ _ ∧ _))

/-- The convention for ignored paths is not set, and the error rejects what the legacy field holds in its place. -/
structure BlamesLegacy (m : Mapping) (e : ConfigError) (v : Value) : Prop where
  key : e.key? = some ["conventions", "ignored"]
  unset : ∀ u, m.find? ["conventions", "ignored"] = some u → u.isNull = true
  found : m.find? ["paths", "ignored"] = some v
  set : v.isNull = false
  rejects : e.Rejects v

section
variable {m m' : Mapping} {e : ConfigError} {path : List String} {v w : Value} {s : Step} {steps : List Step} {shape : Shape}

/-- No value from elsewhere begins on a path that starts with another key. -/
theorem ends_of_head {first : String} {rest : List String}
    (hfirst : ∀ front ∈ inheriting, front ≠ [] ∧ front.head? ≠ some first) :
    ∀ front ∈ inheriting, front <+: first :: rest → first :: rest = front := by
  intro front hfront hstarts
  cases front with
  | nil => exact absurd rfl (hfirst _ hfront).1
  | cons key front => exact absurd (congrArg some (List.cons_prefix_cons.mp hstarts).1) (hfirst _ hfront).2

theorem Blames.of_known (hknown : Known path shape) (hwanted : e.wanted? = some shape) (hkey : e.key? = some path)
    (hfound : m.find? path = some v) (hrejects : e.Rejects v) : Blames m e path v where
  key := hkey
  found := hfound
  rejects := hrejects
  ne_nil := hknown.1
  wanted known hshape := by rw [hwanted, hknown.2.1 known (Option.mem_toList.mpr hshape)]
  ends := hknown.2.2

theorem Blames.not_welcome (h : Blames m e path v) : ¬ Welcome path v := by
  rintro ⟨shape, hshape, hadmits⟩
  exact ConfigError.not_rejects_of_admits (h.wanted shape hshape) hadmits h.rejects

/-! ### Steps that no reader objects to -/

/-- What a step may write: what is welcome, or the legacy field in place of the convention. -/
def Offered (m : Mapping) (target : List String) (w : Value) : Prop :=
  Welcome target w ∧ w.isMapping = false ∨
    target = ["conventions", "ignored"] ∧ m.find? ["paths", "ignored"] = some w ∧ w.isNull = false

/-- The steps that want a value in their place. -/
def Asks (s : Step.Manner × List String) : Prop := s.1 = .requires ∨ s = (.writes, ["paths", "watched"])

instance (s : Step.Manner × List String) : Decidable (Asks s) := inferInstanceAs (Decidable (_ ∨ _))

/-- A step whose value is offered, or cannot be made because of the one that stands in its place. -/
def Offers (s : Step) : Prop := ∀ value, s.value? = some value → ∀ m,
  (∀ w, value m = .ok w → Offered m s.target w) ∧
    ∀ e, value m = .error e → Asks s.outline ∧ ∀ v, m.find? s.target = some v → Blames m e s.target v

/-- Every section on the way to the target of a step is known as one, and the step neither sees the legacy field nor
    writes over the convention that takes its place. -/
def Regular (s : Step.Manner × List String) : Prop :=
  (∀ i < s.2.length, i ≠ 0 → Entries.get? shapes (s.2.take i) = some .mapping) ∧
    (s.1 = .opens → Entries.get? shapes s.2 = some .mapping) ∧ Step.Misses ["paths", "ignored"] s ∧
    ∀ target ∈ Step.written s, ¬ target <+: ["conventions", "ignored"]

instance (s : Step.Manner × List String) : Decidable (Regular s) := inferInstanceAs (Decidable (_ ∧ _ ∧ _ ∧ _))

theorem Regular.get?_section (h : Regular s.outline) (hq : path <+: s.target) (hne : path ≠ [])
    (hopens : path = s.target → s.manner = .opens) : Entries.get? shapes path = some .mapping := by
  by_cases htarget : path = s.target
  · rw [htarget]
    exact h.2.1 (hopens htarget)
  · have hlength : path.length < s.target.length :=
      Nat.lt_of_le_of_ne hq.length_le fun heq => htarget (hq.eq_of_length heq)
    rw [List.prefix_iff_eq_take.mp hq]
    exact h.1 path.length hlength fun hzero => hne (List.length_eq_zero_iff.mp hzero)

/-- A step that neither makes an error blame anything new nor hides what is blamed. -/
structure Proper (s : Step) : Prop where
  offers : Offers s
  regular : Regular s.outline

theorem Blames.apply (hs : Proper s) (happly : s.apply m = .ok m') (h : Blames m' e path v) :
    Blames m e path v ∨ BlamesLegacy m e v := by
  cases Step.origin_of_apply happly h.found with
  | kept hkept => exact .inl { h with found := hkept }
  | opened hmapping hq hopens =>
    -- An opened section is a mapping, and no reader of a section rejects one.
    exact absurd ⟨.mapping, hs.regular.get?_section hq h.ne_nil hopens, hmapping⟩ h.not_welcome
  | made hvalue hw hq hbelow hunset =>
    -- The step made the value: it is welcome as a whole and has nothing below, or it is the legacy field.
    rcases (hs.offers _ hvalue m).1 _ hw with ⟨hwelcome, hleaf⟩ | ⟨htarget, hlegacy, hset⟩
    · rename_i w below
      cases below with
      | nil =>
        cases hbelow
        rw [List.append_nil] at hq
        exact absurd (hq ▸ hwelcome) h.not_welcome
      | cons first below =>
        cases w with
        | mapping es => cases hleaf
        | _ => cases hbelow
    · rename_i w below
      -- The convention is filled in and never written over, so it was not set before.
      have hfills : s.manner = .fills := by
        refine (Step.manner_of_value? hvalue).resolve_right fun hwrites => ?_
        have hwritten : Step.written s.outline = [s.target] := if_pos hwrites
        exact hs.regular.2.2.2 s.target (hwritten ▸ List.mem_singleton.mpr rfl) (htarget ▸ List.prefix_rfl)
      rw [htarget] at hq hunset
      -- The blamed path ends at the convention: it is the legacy field as a whole that is rejected.
      have hends := h.ends ["conventions", "ignored"] (by decide) (hq ▸ List.prefix_append _ _)
      have hnil : below = [] := List.append_cancel_left (hq.symm.trans (hends.trans (List.append_nil _).symm))
      subst hnil
      cases hbelow
      exact .inr ⟨h.key.trans (congrArg some hends), hunset hfills, hlegacy, hset, h.rejects⟩

theorem BlamesLegacy.apply (hs : Proper s) (happly : s.apply m = .ok m') (h : BlamesLegacy m' e v) : BlamesLegacy m e v where
  key := h.key
  unset u hu := by
    refine eq_true_of_ne_false fun hset => ?_
    obtain ⟨u', hu', hstays⟩ := Step.kept_apply happly _ u hs.regular.2.2.2 hu hset
    have hset' := hstays.isNull hset
    rw [h.unset u' hu'] at hset'
    cases hset'
  found := (Step.find?_apply_of_misses happly hs.regular.2.2.1).symm.trans h.found
  set := h.set
  rejects := h.rejects

/-- What is blamed after a run stood in the tree before it, there or in the legacy field. -/
theorem Blames.run (hsteps : ∀ s ∈ steps, Proper s) (hrun : Step.run m steps = (m', none)) (h : Blames m' e path v) :
    Blames m e path v ∨ BlamesLegacy m e v := by
  induction steps generalizing m with
  | nil =>
    cases hrun
    exact .inl h
  | cons s steps ih =>
    obtain ⟨mid, hmid, hrest⟩ := Step.run_cons_eq_ok.mp hrun
    have hs := hsteps s List.mem_cons_self
    rcases ih (fun t ht => hsteps t (List.mem_cons_of_mem s ht)) hrest with hblames | hlegacy
    · exact hblames.apply hs hmid
    · exact .inr (hlegacy.apply hs hmid)

/-! ### The steps of defaulting -/

theorem offers_of_value?_none (h : s.value? = none) : Offers s := by
  intro value hvalue
  rw [h] at hvalue
  cases hvalue

theorem offers_ok {f : Mapping → Value} (hvalue : s.value? = some fun m => .ok (f m))
    (hf : ∀ m, Welcome s.target (f m) ∧ (f m).isMapping = false) : Offers s := by
  intro value h m
  rw [hvalue] at h
  cases h
  constructor
  · intro w hw
    cases hw
    exact .inl (hf m)
  · intro e he
    cases he

theorem offers_string {f : Mapping → String} (hvalue : s.value? = some fun m => .ok (.string (f m)))
    (hshape : Entries.get? shapes s.target = some .string) : Offers s :=
  offers_ok hvalue fun m => ⟨⟨.string, hshape, f m, rfl⟩, rfl⟩

theorem offers_bool {b : Bool} (hvalue : s.value? = some fun _ => .ok (.bool b))
    (hshape : Entries.get? shapes s.target = some .boolean) : Offers s :=
  offers_ok hvalue fun _ => ⟨⟨.boolean, hshape, b, rfl⟩, rfl⟩

theorem offers_ofSource {key : List String} {source : String} (hvalue : s.value? = some fun _ => Value.ofSource key source)
    (hok : (Value.ofSource key source).isOk = true)
    (hshape : Entries.get? shapes s.target = some .regex ∨ Entries.get? shapes s.target = some .pattern) : Offers s := by
  intro value h m
  rw [hvalue] at h
  cases h
  constructor
  · intro w hw
    unfold Value.ofSource at hw
    split at hw
    · rename_i r hr
      cases hw
      refine .inl ⟨?_, rfl⟩
      rcases hshape with hshape | hshape
      · exact ⟨.regex, hshape, r, rfl⟩
      · refine ⟨.pattern, hshape, fun leaf hleaf => ⟨r, ?_⟩⟩
        simpa [Value.leaves] using hleaf
    · cases hw
  · intro e he
    obtain ⟨w, hw⟩ := exists_ok_of_isOk hok
    rw [show Value.ofSource key source = .error e from he] at hw
    cases hw

theorem offers_watchedList : Offers (.write ["paths"] "watched" watchedList) := by
  intro value h m
  cases h
  constructor
  · intro w hw
    obtain ⟨texts, hne, rfl⟩ := watchedList_eq_ok hw
    exact .inl ⟨⟨.strings, by decide, texts, hne, rfl⟩, rfl⟩
  · intro e he
    refine ⟨.inr rfl, fun v hv => ?_⟩
    change m.find? ["paths", "watched"] = some v at hv
    unfold watchedList at he
    rw [hv] at he
    rcases bind_eq_error.mp he with he | ⟨texts, -, he⟩
    · obtain ⟨fault, rfl, hwanted, hconcerns⟩ := Value.watched_eq_error he
      refine ⟨rfl, hv, hconcerns, nofun, fun shape hshape => ?_, by decide⟩
      rw [show Entries.get? shapes _ = some .strings by decide] at hshape
      exact hwanted.trans hshape
    · cases he

theorem leaves_ofSources {sources : List String} {patterns : List Value}
    (h : sources.mapM (Value.ofSource ["conventions", "ignored"]) = .ok patterns) :
    ∀ leaf ∈ Value.allLeaves patterns, ∃ r, leaf = .regex r := by
  induction sources generalizing patterns with
  | nil =>
    cases h
    exact nofun
  | cons source sources ih =>
    rw [List.mapM_cons] at h
    obtain ⟨p, hp, h⟩ := bind_eq_ok.mp h
    obtain ⟨rest, hrest, h⟩ := bind_eq_ok.mp h
    cases h
    unfold Value.ofSource at hp
    split at hp
    · cases hp
      exact List.forall_mem_cons.mpr ⟨⟨_, rfl⟩, ih hrest⟩
    · cases hp

theorem offers_ignoredPatterns : Offers (.fill ["conventions"] "ignored" ignoredPatterns) := by
  intro value h m
  cases h
  obtain ⟨patterns, hpatterns⟩ := exists_ok_of_isOk isOk_ignoredSources
  unfold ignoredPatterns
  constructor
  · intro w hw
    split at hw
    · rename_i legacy hlegacy
      cases hw
      obtain ⟨hfound, hset⟩ := Option.filter_eq_some_iff.mp hlegacy
      exact .inr ⟨rfl, hfound, (Bool.not_eq_true' _).mp hset⟩
    · rw [hpatterns] at hw
      cases hw
      exact .inl ⟨⟨.pattern, by decide, leaves_ofSources hpatterns⟩, rfl⟩
  · intro e he
    split at he
    · cases he
    · rw [hpatterns] at he
      cases he

theorem offers_pathSteps (inv : Invocation) : ∀ s ∈ pathSteps {} inv, Offers s := by
  unfold pathSteps
  simp only [List.forall_mem_cons]
  refine ⟨offers_of_value?_none rfl, offers_string rfl (by decide), offers_of_value?_none rfl, offers_string rfl (by decide),
    offers_of_value?_none rfl, offers_ok rfl fun _ => ⟨⟨.strings, by decide, _, List.cons_ne_nil _ _, rfl⟩, rfl⟩,
    offers_watchedList, ?_, offers_string rfl (by decide), offers_string rfl (by decide), offers_of_value?_none rfl,
    offers_of_value?_none rfl, offers_of_value?_none rfl, nofun⟩
  have hloaded : ∀ path, Offers (.write ["paths"] "config" (constant (.string path))) :=
    fun path => offers_string (f := fun _ => path) rfl (show Entries.get? shapes ["paths", "config"] = _ by decide)
  cases inv.configPath with
  | some path => exact hloaded path
  | none => exact offers_string rfl (by decide)

theorem offers_conventionSteps : ∀ s ∈ conventionSteps, Offers s := by
  unfold conventionSteps
  simp only [List.forall_mem_cons]
  exact ⟨offers_of_value?_none rfl, offers_ofSource rfl (by decide +kernel) (.inr (by decide)), offers_ignoredPatterns,
    offers_ofSource rfl (by decide +kernel) (.inr (by decide)), nofun⟩

theorem offers_buildSteps : ∀ s ∈ buildSteps {}, Offers s := by
  have hformat : ∀ key, Entries.get? shapes ["modules", key] = some .moduleFormat →
      Offers (.fill ["modules"] key (constant (.string "commonjs"))) :=
    fun key hkey => offers_ok (f := fun _ => .string "commonjs") rfl fun _ => ⟨⟨.moduleFormat, hkey, .inl rfl⟩, rfl⟩
  unfold buildSteps
  simp only [List.forall_mem_cons]
  exact ⟨offers_bool rfl (by decide), offers_bool rfl (by decide), offers_bool rfl (by decide),
    offers_ok (f := fun _ => .ofNat 65) rfl fun _ => ⟨⟨.milliseconds, by decide, 65, rfl⟩, rfl⟩, offers_of_value?_none rfl,
    offers_of_value?_none rfl, offers_bool rfl (by decide), offers_of_value?_none rfl, hformat _ (by decide),
    hformat _ (by decide), offers_ofSource rfl (by decide +kernel) (.inl (by decide)), offers_of_value?_none rfl, nofun⟩

theorem offers_serverSteps (inv : Invocation) : ∀ s ∈ serverSteps {} inv, Offers s := by
  unfold serverSteps
  simp only [List.forall_mem_append, List.forall_mem_cons]
  refine ⟨⟨offers_of_value?_none rfl, offers_string rfl (by decide), offers_string (f := fun _ => "") rfl (by decide),
    offers_ok (f := fun _ => .ofNat 3333) rfl fun _ => ⟨⟨.port, by decide, 3333, rfl, by decide⟩, rfl⟩,
    offers_string (f := fun _ => "localhost") rfl (by decide), offers_bool rfl (by decide), nofun⟩, ?_⟩
  split
  · exact nofun
  · exact List.forall_mem_singleton.mpr (offers_bool rfl (by decide))

theorem offers_environmentSteps : ∀ s ∈ environmentSteps, Offers s := by
  unfold environmentSteps
  simp only [List.forall_mem_cons]
  exact ⟨offers_of_value?_none rfl, offers_of_value?_none rfl, offers_of_value?_none rfl, offers_bool rfl (by decide),
    offers_bool rfl (by decide), offers_of_value?_none rfl, offers_of_value?_none rfl, offers_bool rfl (by decide),
    offers_of_value?_none rfl, offers_bool rfl (by decide),
    offers_ok (f := fun _ => .list []) rfl fun _ => ⟨⟨.moduleNames, by decide, [], rfl⟩, rfl⟩, nofun⟩

theorem regular_outlines : ∀ loaded persistent, ∀ s ∈ outlines loaded persistent, Regular s := by decide +kernel

theorem proper_steps (inv : Invocation) : ∀ s ∈ Defaults.steps {} inv, Proper s := by
  have hoffers : ∀ s ∈ Defaults.steps {} inv, Offers s := by
    unfold Defaults.steps
    simp only [List.forall_mem_append]
    exact ⟨⟨⟨⟨offers_pathSteps inv, offers_conventionSteps⟩, offers_buildSteps⟩, offers_serverSteps inv⟩,
      offers_environmentSteps⟩
  refine fun s hs => ⟨hoffers s hs, regular_outlines inv.configPath.isSome inv.persistent _ ?_⟩
  rw [← outline_steps {}]
  exact List.mem_map_of_mem hs

theorem welcome_of_suits {target : List String} (h : Options.Suits target v) (htarget : target ∈ Options.closingTargets) :
    Welcome target v := by
  simp only [Options.closingTargets, List.mem_cons, List.not_mem_nil, or_false] at htarget
  rcases htarget with rfl | rfl | rfl | rfl | rfl
  · exact ⟨.string, by decide, h⟩
  · exact ⟨.boolean, by decide, h⟩
  · obtain ⟨port, rfl⟩ := h
    exact ⟨.port, by decide, port.toNat, rfl, port.toNat_lt⟩
  · exact ⟨.boolean, by decide, h⟩
  · exact ⟨.string, by decide, h⟩

/-- The end of a cascade offers what its settings are read by. -/
theorem proper_closingSteps (o : Options) : ∀ s ∈ o.closingSteps, Proper s := by
  intro s hs
  have hclosing := Options.closing_closingSteps o s hs
  refine ⟨?_, ?_⟩
  · cases hclosing with
    | write hsuits htarget =>
      exact offers_ok rfl fun m => ⟨welcome_of_suits (hsuits m) htarget, (hsuits m).shape.2⟩
  · rw [hclosing.outline]
    exact (by decide +kernel : ∀ target ∈ Options.closingTargets, Regular (.writes, target)) _ hclosing.target_mem

/-! ### Failing to default -/

/-- The sections in sections that defaulting opens. -/
def nestedSections : List (List String) :=
  [["modules", "autoRequire"], ["overrides", "production"], ["overrides", "production", "plugins"],
    ["overrides", "production", "plugins", "autoReload"]]

/-- An error over a section in a section that is none. -/
def BlamesNested (m : Mapping) (e : ConfigError) (v : Value) : Prop := ∃ path ∈ nestedSections,
  m.find? path = some v ∧ v.isNull = false ∧ v.isMapping = false ∧ ∃ key, e = .structural key (.ofKind .mapping v)

/-- What an error over a tree is about: a value that it names the path to, the legacy field in place of the convention,
    or a section in a section. -/
def Traced (m : Mapping) (e : ConfigError) : Prop :=
  (∃ path v, Blames m e path v) ∨ (∃ v, BlamesLegacy m e v) ∨ ∃ v, BlamesNested m e v

theorem Blames.traced_run (hsteps : ∀ s ∈ steps, Proper s) (hrun : Step.run m steps = (m', none)) (h : Blames m' e path v) :
    Traced m e := by
  rcases h.run hsteps hrun with hblames | hlegacy
  · exact .inl ⟨path, v, hblames⟩
  · exact .inr (.inl ⟨v, hlegacy⟩)

/-- A value that a step asks for was filled in or written by an earlier one. -/
def Prepared (before : List (Step.Manner × List String)) (s : Step.Manner × List String) : Prop := Asks s →
  ∃ t ∈ before, t.2 = s.2 ∧ t.1 ≠ .opens ∧ t.1 ≠ .requires ∧ t.2 ≠ ["server", "publicPath"]

instance (before : List (Step.Manner × List String)) (s : Step.Manner × List String) : Decidable (Prepared before s) :=
  inferInstanceAs (Decidable (_ → _))

theorem prepared_outlines : ∀ loaded persistent, ∀ i < (outlines loaded persistent).length,
    ∀ s ∈ (outlines loaded persistent)[i]?.toList, Prepared ((outlines loaded persistent).take i) s := by decide +kernel

theorem exists_asked {inv : Invocation} {mid : Mapping} {before after : List Step}
    (hsteps : Defaults.steps {} inv = before ++ s :: after) (hrun : Step.run m before = (mid, none)) (hasks : Asks s.outline) :
    ∃ v, mid.find? s.target = some v := by
  have houtlines := outline_steps {} inv
  rw [hsteps, List.map_append, List.map_cons] at houtlines
  have hprepared := prepared_outlines inv.configPath.isSome inv.persistent before.length
  have hspares := spares_outlines inv.configPath.isSome inv.persistent
  rw [← houtlines] at hprepared hspares
  obtain ⟨outline, houtline, htarget, hopens, hrequires, hserved⟩ := hprepared (by simp) s.outline (by simp) hasks
  rw [List.take_left' (by simp)] at houtline
  obtain ⟨t, ht, rfl⟩ := List.mem_map.mp houtline
  have hmem : ∀ u ∈ before, u ∈ Defaults.steps {} inv := fun u hu => hsteps ▸ List.mem_append_left _ hu
  -- The only step that is not steady writes the server's public path, which no step asks for.
  have hsteady : t.Steady := by
    refine (steady_or_served (hmem t ht)).resolve_right ?_
    rintro rfl
    exact hserved rfl
  have hsettled := Step.settled_run hrun (fun u hu => sound_steps {} inv u (hmem u hu)) (List.pairwise_append.mp hspares).1 ht
    hsteady
  change t.target = s.target at htarget
  rw [← htarget]
  cases t with
  | fill path key value =>
    obtain ⟨-, v, hv, -⟩ := hsettled
    exact ⟨v, hv⟩
  | write path key value =>
    obtain ⟨v, -, hv⟩ := hsettled
    exact ⟨v, hv⟩
  | openSection path key => exact absurd rfl hopens
  | requireText path key => exact absurd rfl hrequires

/-- A known section is a section of the whole, or one of those in sections; none is below a value from elsewhere. -/
theorem sections_shapes : ∀ entry ∈ shapes, entry.2 = .mapping →
    (entry.1.length = 1 ∨ entry.1 ∈ nestedSections) ∧ entry.1 ≠ ["conventions", "ignored"] ∧
      ∀ front ∈ inheriting, front <+: entry.1 → entry.1 = front := by decide

/-- The texts that are asked for are known as such. -/
theorem asked_outlines : ∀ loaded persistent, ∀ s ∈ outlines loaded persistent, s.1 = .requires → Known s.2 .string := by
  decide +kernel

theorem apply_eq_error {d : Defaults} {inv : Invocation} (h : d.apply inv m = .error e) :
    ∃ mid, Step.run m (d.steps inv) = (mid, some e) := by
  unfold Defaults.apply fill at h
  split at h
  · cases h
  · rename_i mid e' hrun
    cases h
    exact ⟨mid, hrun⟩

/-- Defaulting fails with an error that is about a value of the tree. -/
theorem traced_of_apply {inv : Invocation} (h : Defaults.apply {} inv m = .error e) : Traced m e := by
  obtain ⟨mid, hfails⟩ := apply_eq_error h
  obtain ⟨before, s, after, hsteps, hrun, happly⟩ := Step.run_eq_error hfails
  have hmem : s ∈ Defaults.steps {} inv := hsteps ▸ List.mem_append_right _ List.mem_cons_self
  have hproper := proper_steps inv s hmem
  have hbefore : ∀ t ∈ before, Proper t := fun t ht => proper_steps inv t (hsteps ▸ List.mem_append_left _ ht)
  cases Step.failure_of_apply happly with
  | opening hq hopens hv hnull hmapping =>
    rename_i front key v
    have hshape := hproper.regular.get?_section hq (by simp) hopens
    obtain ⟨hplace, hignored, hends⟩ := sections_shapes _ (Entries.mem_of_get?_eq_some hshape) rfl
    -- The same error under the whole path blames the value.
    have hrejects : ¬ Shape.mapping.Fits v := by
      intro hfits
      rw [show v.isMapping = true from hfits] at hmapping
      cases hmapping
    have hblames : Blames mid (.structural (front ++ [key]) (.ofKind .mapping v)) (front ++ [key]) v :=
      ⟨rfl, hv, hrejects, by simp, fun shape hshape' => hshape.symm.trans hshape', hends⟩
    rcases hblames.run hbefore hrun with hblames | hlegacy
    · rcases hplace with hlength | hnested
      · cases front with
        | nil => exact .inl ⟨_, _, hblames⟩
        | cons first front => simp at hlength
      · exact .inr (.inr ⟨v, _, hnested, hblames.found, hnull, hmapping, _, rfl⟩)
    · exact absurd (Option.some.inj hlegacy.key) hignored
  | making hvalue he =>
    -- Only the watched folders can fail to be made, and by then something stands in their place.
    obtain ⟨hasks, hblames⟩ := (hproper.offers _ hvalue mid).2 _ he
    obtain ⟨v, hv⟩ := exists_asked hsteps hrun hasks
    exact Blames.traced_run hbefore hrun (hblames v hv)
  | missing hs hnone =>
    obtain ⟨v, hv⟩ := exists_asked hsteps hrun (.inl hs)
    rw [hnone] at hv
    cases hv
  | asking hs hv hstring =>
    have houtline : s.outline ∈ outlines inv.configPath.isSome inv.persistent := by
      rw [← outline_steps {}]
      exact List.mem_map_of_mem hmem
    exact Blames.traced_run hbefore hrun (.of_known (asked_outlines _ _ _ houtline hs) rfl rfl hv hstring)

end
end Defaults
end AssetPlan
