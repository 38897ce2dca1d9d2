import AssetPlan.Proofs.Defaults.Filled
import AssetPlan.Proofs.Defaults.Origin

/-! # What defaulting keeps

Defaulting writes over what is set at four settings only. One of them is `paths.watched`, where it writes what it has
read there, a bare string as a list. So whether or not a step fails on the way, every value outside the other three
is kept, and every mapping begins with the keys that it had (`stays_fill`, `staysOrBlocked_run`). -/

namespace AssetPlan
open Mapping
variable {m m' : Mapping} {q : List String} {v : Value}

/-! ### Values and what stands in their place after a run -/

/-- At a path or on the way to it stands a value that is set and no mapping. -/
def Mapping.Blocked (m : Mapping) (q : List String) : Prop :=
  ∃ front v, front <+: q ∧ m.find? front = some v ∧ v.isNull = false ∧ v.isMapping = false

theorem Mapping.Blocked.find?_ne (h : m.Blocked q) (fields : Mapping) : m.find? q ≠ some (.mapping fields) := by
  obtain ⟨front, v, hfront, hv, -, hleaf⟩ := h
  intro hfields
  rw [isMapping_of_front hfront hfields hv] at hleaf
  cases hleaf

namespace Step
variable {s : Step} {steps : List Step}

theorem blocked_of_written (h : s.apply m = .ok m') (hs : s.Sound) (hq : ∃ target ∈ written s.outline, target <+: q) :
    m'.Blocked q := by
  obtain ⟨target, htarget, hq⟩ := hq
  cases s with
  | write path key value =>
    obtain rfl : target = path ++ [key] := List.mem_singleton.mp htarget
    obtain ⟨v, hv, hfound⟩ := find?_apply_write h
    exact ⟨path ++ [key], v, hq, hfound, hs m v hv⟩
  | _ => cases htarget

theorem blocked_apply (h : s.apply m = .ok m') (hs : s.Sound) (hblocked : m.Blocked q) : m'.Blocked q := by
  obtain ⟨front, v, hfront, hv, hnull, hleaf⟩ := hblocked
  by_cases hw : ∃ target ∈ written s.outline, target <+: front
  · obtain ⟨target, htarget, hprefix⟩ := hw
    exact blocked_of_written h hs ⟨target, htarget, hprefix.trans hfront⟩
  · have hfree : ∀ target ∈ written s.outline, ¬ target <+: front := fun target ht hp => hw ⟨target, ht, hp⟩
    exact ⟨front, v, hfront, (kept_apply h).find?_leaf hfree hv hnull hleaf, hnull, hleaf⟩

/-- A value that was set stays, or its path is blocked. -/
def StaysOrBlocked (q : List String) (v : Value) (m : Mapping) : Prop :=
  (∃ v', m.find? q = some v' ∧ v.Stays v') ∨ m.Blocked q

theorem staysOrBlocked_apply (h : s.apply m = .ok m') (hs : s.Sound) (hv : v.isNull = false) (hm : StaysOrBlocked q v m) :
    StaysOrBlocked q v m' := by
  rcases hm with ⟨mid, hmid, hstays⟩ | hblocked
  · by_cases hw : ∃ target ∈ written s.outline, target <+: q
    · exact .inr (blocked_of_written h hs hw)
    · have hfree : ∀ target ∈ written s.outline, ¬ target <+: q := fun target ht hp => hw ⟨target, ht, hp⟩
      obtain ⟨v', hv', hstays'⟩ := kept_apply h q mid hfree hmid (hstays.isNull hv)
      exact .inl ⟨v', hv', hstays.trans hstays'⟩
  · exact .inr (blocked_apply h hs hblocked)

theorem staysOrBlocked_run {outcome : Option ConfigError} (h : run m steps = (m', outcome)) (hs : ∀ s ∈ steps, s.Sound)
    (hv : v.isNull = false) (hm : StaysOrBlocked q v m) : StaysOrBlocked q v m' := by
  induction steps generalizing m with
  | nil =>
    cases h
    exact hm
  | cons s steps ih =>
    rw [run] at h
    cases happly : s.apply m with
    | error e =>
      rw [happly] at h
      cases h
      exact hm
    | ok mid =>
      rw [happly] at h
      exact ih h (fun t ht => hs t (List.mem_cons_of_mem s ht)) (staysOrBlocked_apply happly (hs s List.mem_cons_self) hv hm)

end Step

/-! ### Defaulting -/

namespace Defaults
open Step
variable {d : Defaults} {inv : Invocation} {config after : Mapping} {outcome : Option ConfigError}

/-- The settings that are written over whatever stands there: the path of the loaded file, the server's output
    directory and whether the server runs. -/
def replaced (inv : Invocation) : List (List String) :=
  (if inv.configPath.isSome then [["paths", "config"]] else []) ++ [["server", "publicPath"]] ++
    if inv.persistent then [] else [["server", "run"]]

/-- The steps before the one that writes the watched directories. -/
def stepsBeforeWatched (d : Defaults) (inv : Invocation) : List Step := (d.pathSteps inv).take 6

/-- The steps after the one that writes the watched directories. -/
def stepsAfterWatched (d : Defaults) (inv : Invocation) : List Step :=
  (d.pathSteps inv).drop 7 ++ conventionSteps ++ d.buildSteps ++ d.serverSteps inv ++ environmentSteps

theorem steps_eq (d : Defaults) (inv : Invocation) :
    d.steps inv = d.stepsBeforeWatched inv ++ .write ["paths"] "watched" watchedList :: d.stepsAfterWatched inv := rfl

theorem written_stepsBeforeWatched (d : Defaults) (inv : Invocation) :
    ((d.stepsBeforeWatched inv).map outline).flatMap written = [] := rfl

theorem written_stepsAfterWatched (d : Defaults) (inv : Invocation) :
    ((d.stepsAfterWatched inv).map outline).flatMap written = replaced inv := by
  obtain ⟨path, persistent⟩ := inv
  cases path <;> cases persistent <;> rfl

/-- The watched directories are written as they are, or one string as a list. -/
theorem apply_watched (h : (Step.write ["paths"] "watched" watchedList).apply m = .ok m') :
    m' = m ∨ ∃ text, m.find? ["paths", "watched"] = some (.string text) ∧
      m'.find? ["paths", "watched"] = some (.list [.string text]) := by
  obtain ⟨v, hv, hfound⟩ := find?_apply_write h
  obtain ⟨texts, htexts, hlist⟩ := bind_eq_ok.mp hv
  cases hlist
  have hset : ∀ u : Value, (m.find? ["paths", "watched"]).getD .null = u → u ≠ .null →
      m.find? ["paths", "watched"] = some u := by
    intro u hu hne
    cases hm : m.find? ["paths", "watched"] with
    | none =>
      rw [hm] at hu
      exact absurd hu.symm hne
    | some w =>
      rw [hm] at hu
      exact congrArg some hu
  rcases Value.watched_eq_ok.mp htexts with ⟨text, htext, rfl⟩ | ⟨-, hlist⟩
  · exact .inr ⟨text, hset _ htext nofun, hfound⟩
  · have hsettled : (Step.write ["paths"] "watched" watchedList).Settled m := ⟨_, hv, hset _ hlist nofun⟩
    rw [apply_of_settled hsettled] at h
    exact .inl (Except.ok.inj h).symm

/-- What was set outside the replaced settings stays, but for one string that became the list of the watched
    directories. -/
theorem stays_fill (hfill : d.fill inv config = (after, outcome)) (hq : ∀ target ∈ replaced inv, ¬ target <+: q)
    (hv : config.find? q = some v) (hnull : v.isNull = false) :
    (∃ v', after.find? q = some v' ∧ v.Stays v') ∨
      q = ["paths", "watched"] ∧ ∃ text, v = .string text ∧ after.find? q = some (.list [.string text]) := by
  unfold fill at hfill
  rw [steps_eq] at hfill
  have hfree : ∀ target ∈ ((d.stepsBeforeWatched inv).map outline).flatMap written, ¬ target <+: q := by
    rw [written_stepsBeforeWatched]
    exact nofun
  rcases kept_or_past hfill with hkept | ⟨mid, next, hbefore, happly, hafter⟩
  · exact .inl (hkept q v hfree hv hnull)
  obtain ⟨u, hu, hstays⟩ := kept_run hbefore q v hfree hv hnull
  have hkept := kept_run hafter
  rw [written_stepsAfterWatched] at hkept
  have hlater : ∀ {w}, next.find? q = some w → v.Stays w → ∃ v', after.find? q = some v' ∧ v.Stays v' := by
    intro w hw hstays
    obtain ⟨v', hv', hstays'⟩ := hkept q w hq hw (hstays.isNull hnull)
    exact ⟨v', hv', hstays.trans hstays'⟩
  rcases apply_watched happly with rfl | ⟨text, htext, hlist⟩
  · exact .inl (hlater hu hstays)
  by_cases hwatched : ["paths", "watched"] <+: q
  · -- A string has nothing below it.
    obtain ⟨below, rfl⟩ := hwatched
    have hsplit : mid.find? (["paths", "watched"] ++ below) = (mid.find? ["paths", "watched"]).bind (Value.find? · below) :=
      Value.find?_append (.mapping mid) ["paths", "watched"] below
    rw [hu, htext] at hsplit
    cases below with
    | nil =>
      cases hsplit
      have hv' : Value.string text = v := hstays.eq_of_leaf hstays.isMapping.symm
      exact .inr ⟨rfl, text, hv'.symm, hkept.find?_leaf hq hlist rfl rfl⟩
    | cons first rest => cases hsplit
  · have hapart : ∀ target ∈ [["paths", "watched"]], ¬ target <+: q := List.forall_mem_singleton.mpr hwatched
    obtain ⟨w, hw, hstays'⟩ := kept_apply happly q u hapart hu (hstays.isNull hnull)
    exact .inl (hlater hw (hstays.trans hstays'))

/-- Defaulting, also one that fails midway, overwrites nothing that is set outside the replaced settings, but for one
    string that becomes the list of the watched directories. A mapping begins with the keys that it had, or it was at or
    below a replaced setting and is none any more. -/
theorem fill_keeps (d : Defaults) (inv : Invocation) (config : Mapping) :
    (∀ q v, config.find? q = some v → v.isNull = false → v.isMapping = false →
      (∀ target ∈ replaced inv, ¬ target <+: q) →
      (d.fill inv config).1.find? q = some v ∨
        q = ["paths", "watched"] ∧
          ∃ text, v = .string text ∧ (d.fill inv config).1.find? q = some (.list [.string text])) ∧
    ∀ q fields, config.find? q = some (.mapping fields) →
      (∃ fields', (d.fill inv config).1.find? q = some (.mapping fields') ∧
        Entries.keys fields <+: Entries.keys fields') ∨
      (∃ target ∈ replaced inv, target <+: q) ∧
        ∀ fields', (d.fill inv config).1.find? q ≠ some (.mapping fields') := by
  constructor
  · intro q v hv hnull hleaf hq
    rcases stays_fill (d := d) rfl hq hv hnull with ⟨v', hv', hstays⟩ | hwatched
    · exact .inl (hstays.eq_of_leaf hleaf ▸ hv')
    · exact .inr hwatched
  · intro q fields hfields
    by_cases hq : ∃ target ∈ replaced inv, target <+: q
    · have hstart : StaysOrBlocked q (.mapping fields) config := .inl ⟨_, hfields, .refl _⟩
      have hend : StaysOrBlocked q (.mapping fields) (d.fill inv config).1 :=
        staysOrBlocked_run rfl (sound_steps d inv) rfl hstart
      rcases hend with ⟨v', hv', hstays⟩ | hblocked
      · obtain ⟨fields', rfl, hkeys⟩ := hstays.exists_mapping
        exact .inl ⟨fields', hv', hkeys⟩
      · exact .inr ⟨hq, hblocked.find?_ne⟩
    · have hapart : ∀ target ∈ replaced inv, ¬ target <+: q := fun target ht hp => hq ⟨target, ht, hp⟩
      rcases stays_fill (d := d) rfl hapart hfields rfl with ⟨v', hv', hstays⟩ | ⟨-, text, htext, -⟩
      · obtain ⟨fields', rfl, hkeys⟩ := hstays.exists_mapping
        exact .inl ⟨fields', hv', hkeys⟩
      · cases htext

/-- A project whose modules cannot be filled, because a flag stands where a section belongs. -/
def haltedProject : Mapping := [
  ("sourceMaps", .string "inline"),
  ("paths", .mapping [("watched", .string "src"), ("config", .string "old.toml")]),
  ("modules", .mapping [("wrapper", .string "amd"), ("autoRequire", .bool true)])]

/-- The run has replaced the path of the loaded file and listed the watched directory before it fails. -/
theorem fill_keeps_haltedProject : ∃ halted e, fill {} ⟨some "build.toml", false⟩ haltedProject = (halted, some e) ∧
    halted.find? ["paths", "watched"] = some (.list [.string "src"]) ∧
    halted.find? ["paths", "config"] = some (.string "build.toml") ∧
    halted.find? ["sourceMaps"] = some (.string "inline") ∧
    halted.find? ["modules", "wrapper"] = some (.string "amd") := by
  obtain ⟨hleaves, -⟩ := fill_keeps {} ⟨some "build.toml", false⟩ haltedProject
  have hkept : ∀ q v, Mapping.find? haltedProject q = some v → v.isNull = false → v.isMapping = false →
      q ≠ ["paths", "watched"] → (∀ target ∈ replaced ⟨some "build.toml", false⟩, ¬ target <+: q) →
      (fill {} ⟨some "build.toml", false⟩ haltedProject).1.find? q = some v := by
    intro q v hv hnull hleaf hq hfree
    rcases hleaves q v hv hnull hleaf hfree with hkept | ⟨hwatched, -⟩
    · exact hkept
    · exact absurd hwatched hq
  exact ⟨_, _, rfl, rfl, rfl, hkept ["sourceMaps"] _ rfl rfl rfl (by decide) (by decide),
    hkept ["modules", "wrapper"] _ rfl rfl rfl (by decide) (by decide)⟩

end Defaults
end AssetPlan
