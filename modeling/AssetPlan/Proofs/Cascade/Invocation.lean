import AssetPlan.Proofs.Cascade.Layers
import AssetPlan.Proofs.Defaults.Filled
import AssetPlan.Proofs.Options

/-! # The end of a cascade

A cascade ends with the layer of the invocation and the two settings of the server. Over a configuration with
paths and a server this is a run of writes. -/

namespace AssetPlan
variable {o : Options} {d : Defaults} {inv : Invocation} {m c final paths server : Mapping} {q : List String}

namespace Options
open Mapping Defaults

/-! ### The layer of an invocation as writes -/

/-- The writes that merge the output directory. -/
def publicSteps (o : Options) : List Step :=
  o.publicPath.toList.map fun path => .write ["paths"] "public" (constant (.string path))

/-- The writes that merge the server. -/
def serverSteps (o : Options) : List Step :=
  if o.server then .write ["server"] "run" (constant (.bool true)) ::
    o.port.toList.map fun port => .write ["server"] "port" (constant (.ofNat port.toNat))
  else []

/-- The writes that merge the layer. -/
def layerSteps (o : Options) : List Step :=
  o.publicSteps ++ o.serverSteps ++ [.write [] "persistent" (constant (.bool o.persistent))]

theorem run_publicSteps (hpaths : Entries.get? m "paths" = some (.mapping paths)) :
    Step.run m o.publicSteps = (Value.mergeEntries .cascade [] m o.publicLayer, none) := by
  unfold publicSteps publicLayer
  cases o.publicPath with
  | none => rfl
  | some path =>
    rw [Value.mergeEntries_section hpaths (by decide), Value.mergeEntries_leaf rfl]
    exact Step.run_cons_eq_ok.mpr ⟨_, Step.apply_write_of_get? rfl hpaths, rfl⟩

theorem run_serverSteps (hserver : Entries.get? m "server" = some (.mapping server)) :
    Step.run m o.serverSteps = (Value.mergeEntries .cascade [] m o.serverLayer, none) := by
  unfold serverSteps serverLayer
  cases o.server with
  | false => rfl
  | true =>
    cases o.port with
    | none =>
      show _ = (Value.mergeEntries .cascade [] m [("server", .mapping [("run", .bool true)])], none)
      rw [Value.mergeEntries_section hserver (by decide), Value.mergeEntries_leaf rfl]
      exact Step.run_cons_eq_ok.mpr ⟨_, Step.apply_write_of_get? rfl hserver, rfl⟩
    | some port =>
      have hrunning : Entries.get? (Entries.insert m "server" (.mapping (Entries.insert server "run" (.bool true)))) "server" =
          some (.mapping (Entries.insert server "run" (.bool true))) := Entries.get?_insert_self _ _ _
      show _ = (Value.mergeEntries .cascade [] m
        [("server", .mapping ([("run", .bool true)] ++ [("port", .ofNat port.toNat)]))], none)
      rw [Value.mergeEntries_section hserver (by decide), Value.mergeEntries_append, Value.mergeEntries_leaf rfl,
        Value.mergeEntries_leaf rfl, ← Entries.insert_insert m "server" (.mapping (Entries.insert server "run" (.bool true)))]
      exact Step.run_cons_eq_ok.mpr ⟨_, Step.apply_write_of_get? rfl hserver,
        Step.run_cons_eq_ok.mpr ⟨_, Step.apply_write_of_get? rfl hrunning, rfl⟩⟩

theorem run_layerSteps (hpaths : Entries.get? m "paths" = some (.mapping paths))
    (hserver : Entries.get? m "server" = some (.mapping server)) :
    Step.run m o.layerSteps = (Mapping.merge .cascade m o.layer, none) := by
  have hother : Entries.get? (Value.mergeEntries .cascade [] m o.publicLayer) "server" = some (.mapping server) := by
    rw [Value.get?_mergeEntries_of_none ?_, hserver]
    unfold publicLayer
    cases o.publicPath <;> rfl
  rw [merge_cascade_eq]
  unfold layer layerSteps
  rw [Value.mergeEntries_append, Value.mergeEntries_append, Value.mergeEntries_leaf rfl]
  exact Step.run_append_eq_ok.mpr
    ⟨_, Step.run_append_eq_ok.mpr ⟨_, run_publicSteps hpaths, run_serverSteps hother⟩, rfl⟩

/-- The writes that end a cascade. -/
def closingSteps (o : Options) : List Step :=
  o.layerSteps ++ .write ["server"] "publicPath" served ::
    if o.persistent then [] else [.write ["server"] "run" (constant (.bool false))]

/-- The paths at which a cascade may write at its end. -/
def closingTargets : List (List String) :=
  [["paths", "public"], ["server", "run"], ["server", "port"], ["persistent"], ["server", "publicPath"]]

/-- What the end of a cascade may leave at one of its targets. -/
def Suits : List String → Value → Prop
  | ["server", "port"], v => ∃ port : UInt16, v = .ofNat port.toNat
  | ["server", "run"], v => ∃ b, v = .bool b
  | ["persistent"], v => ∃ b, v = .bool b
  | _, v => ∃ text, v = .string text

theorem Suits.shape {target : List String} {v : Value} (h : Suits target v) : v.isNull = false ∧ v.isMapping = false := by
  unfold Suits at h
  split at h <;> obtain ⟨_, rfl⟩ := h <;> exact ⟨rfl, rfl⟩

/-- A write at the end of a cascade. -/
inductive Closing : Step → Prop
  | write {path : List String} {key : String} {f : Mapping → Value} (hsuits : ∀ m, Suits (path ++ [key]) (f m))
      (htarget : path ++ [key] ∈ closingTargets) : Closing (.write path key fun m => .ok (f m))

namespace Closing
variable {s : Step}

theorem sound (h : Closing s) : s.Sound := by
  cases h with
  | write hsuits htarget => exact sound_write_ok fun m => (hsuits m).shape

theorem outline (h : Closing s) : s.outline = (.writes, s.target) := by
  cases h with
  | write hsuits htarget => rfl

theorem target_mem (h : Closing s) : s.target ∈ closingTargets := by
  cases h with
  | write hsuits htarget => exact htarget

theorem suits (h : Closing s) (happly : s.apply m = .ok final) : ∃ v, final.find? s.target = some v ∧ Suits s.target v := by
  cases h with
  | write hsuits htarget =>
    obtain ⟨v, hv, hfound⟩ := Step.find?_apply_write happly
    cases hv
    exact ⟨_, hfound, hsuits m⟩

end Closing

theorem closing_closingSteps (o : Options) : ∀ s ∈ o.closingSteps, Closing s := by
  have hpublic : ∀ s ∈ o.publicSteps, Closing s := by
    intro s hs
    obtain ⟨path, -, rfl⟩ := List.mem_map.mp hs
    exact .write (fun _ => ⟨path, rfl⟩) (by decide)
  have hserver : ∀ s ∈ o.serverSteps, Closing s := by
    intro s hs
    unfold serverSteps at hs
    split at hs
    · rcases List.mem_cons.mp hs with rfl | hs
      · exact .write (fun _ => ⟨true, rfl⟩) (by decide)
      · obtain ⟨port, -, rfl⟩ := List.mem_map.mp hs
        exact .write (fun _ => ⟨port, rfl⟩) (by decide)
    · cases hs
  unfold closingSteps layerSteps
  simp only [List.forall_mem_append, List.forall_mem_cons]
  refine ⟨⟨⟨hpublic, hserver⟩, .write (fun _ => ⟨o.persistent, rfl⟩) (by decide), nofun⟩,
    .write (fun _ => ⟨_, rfl⟩) (by decide), ?_⟩
  split
  · exact nofun
  · exact List.forall_mem_singleton.mpr (.write (fun _ => ⟨false, rfl⟩) (by decide))

theorem mem_closingTargets {steps : List Step} (h : ∀ s ∈ steps, Closing s) {target : List String}
    (ht : target ∈ (steps.map Step.outline).flatMap Step.written) : target ∈ closingTargets := by
  obtain ⟨outline, houtline, htarget⟩ := List.mem_flatMap.mp ht
  obtain ⟨s, hs, rfl⟩ := List.mem_map.mp houtline
  rw [(h s hs).outline] at htarget
  rw [List.mem_singleton.mp htarget]
  exact (h s hs).target_mem

end Options

namespace Cascade
open Mapping Defaults Step

/-- A configuration with the last layer and the settings of the server that follow from it. -/
def conclude (config last : Mapping) : Except ConfigError Mapping := do
  stopServer (← followPublicPath (Mapping.merge .cascade config last))

theorem apply_eq_conclude (config : Mapping) (environments : List String) (last : Mapping) :
    apply config environments last = applyEnvironments config environments >>= (conclude · last) := rfl

theorem isPersistent_merge (o : Options) (m : Mapping) : isPersistent (Mapping.merge .cascade m o.layer) = o.persistent := by
  unfold isPersistent
  rw [get?_merge_of_some (Options.wellKeyed_layer o).1 (Options.get?_layer_persistent o),
    Value.mergeOver_of_not_mapping _ rfl]
  rfl

theorem exists_public_merge {text : String} (h : m.find? ["paths", "public"] = some (.string text)) :
    ∃ text, (Mapping.merge .cascade m o.layer).find? ["paths", "public"] = some (.string text) := by
  cases hpublic : o.publicPath with
  | some path => exact ⟨path, find?_merge_of_leaf (Options.wellKeyed_layer o) rfl (Options.find?_layer_public hpublic)⟩
  | none =>
    have hnone : Entries.get? o.layer "paths" = none := by
      rw [Options.get?_layer]
      unfold Options.publicLayer Options.serverLayer
      rw [hpublic]
      cases o.server <;> cases o.port <;> rfl
    exact ⟨text, (find?_congr (get?_merge_of_none hnone) _).trans h⟩

/-- The end of a cascade succeeds and is a run of writes. -/
theorem run_closingSteps {text : String} (hpublic : m.find? ["paths", "public"] = some (.string text))
    (hserver : Entries.get? m "server" = some (.mapping server)) :
    ∃ final, Step.run m o.closingSteps = (final, none) ∧ conclude m o.layer = .ok final := by
  obtain ⟨paths, hpaths, -⟩ := find?_concat_eq_some (p := ["paths"]).mp hpublic
  rw [find?_singleton] at hpaths
  have hmerge : Step.run m o.layerSteps = (Mapping.merge .cascade m o.layer, none) := Options.run_layerSteps hpaths hserver
  obtain ⟨served', hserved⟩ := exists_public_merge (o := o) hpublic
  have hkept := Step.kept_run hmerge
  obtain ⟨server', hserver'⟩ := hkept.find?_section (q := ["server"])
    (fun target ht => (by decide : ∀ target ∈ Options.closingTargets, ¬ target <+: ["server"]) target
      (Options.mem_closingTargets (fun s hs => Options.closing_closingSteps o s (List.mem_append_left _ hs)) ht))
    ((find?_singleton m "server").trans hserver)
  rw [find?_singleton] at hserver'
  generalize hmerged : Mapping.merge .cascade m o.layer = merged at *
  -- First the server follows the output directory.
  let followed := Entries.insert merged "server" (.mapping (Entries.insert server' "publicPath" (.string served')))
  have hwritten : (Step.write ["server"] "publicPath" served).apply merged = .ok followed := by
    refine Step.apply_write_of_get? ?_ hserver'
    unfold served textAt
    rw [hserved]
    rfl
  have hfollowed : followPublicPath merged = .ok followed := by
    unfold followPublicPath
    rw [hserved]
    exact editSection_of_get? hserver' rfl
  have hget : Entries.get? followed "server" = some (.mapping (Entries.insert server' "publicPath" (.string served'))) :=
    Entries.get?_insert_self _ _ _
  have hpersistent : isPersistent followed = o.persistent := by
    rw [← isPersistent_merge o m, hmerged]
    unfold isPersistent
    rw [get?_followPublicPath hfollowed (by decide)]
  -- Then it stops, unless the build goes on watching.
  have hstop : ∃ final, Step.run followed (if o.persistent then [] else [.write ["server"] "run" (constant (.bool false))]) =
      (final, none) ∧ stopServer followed = .ok final := by
    unfold stopServer
    rw [hpersistent]
    cases o.persistent with
    | true => exact ⟨_, rfl, rfl⟩
    | false =>
      exact ⟨_, Step.run_cons_eq_ok.mpr ⟨_, Step.apply_write_of_get? rfl hget, rfl⟩, editSection_of_get? hget rfl⟩
  obtain ⟨final, hrun, hstopped⟩ := hstop
  refine ⟨final, Step.run_append_eq_ok.mpr ⟨merged, hmerge, Step.run_cons_eq_ok.mpr ⟨followed, hwritten, hrun⟩⟩, ?_⟩
  unfold conclude
  rw [hmerged, hfollowed]
  exact hstopped

/-! ### What a cascade leaves as it is -/

/-- A configuration that agrees with an invocation and whose server agrees with it. -/
structure Concluded (o : Options) (m : Mapping) : Prop where
  follows : ∃ text, m.find? ["paths", "public"] = some (.string text) ∧
    m.find? ["server", "publicPath"] = some (.string text)
  publicPath : ∀ path, o.publicPath = some path → m.find? ["paths", "public"] = some (.string path)
  run : o.server = true ∨ o.persistent = false → m.find? ["server", "run"] = some (.bool o.persistent)
  port : ∀ port, o.server = true → o.port = some port → m.find? ["server", "port"] = some (.ofNat port.toNat)
  persistent : Entries.get? m "persistent" = some (.bool o.persistent)

namespace Concluded

theorem isPersistent (h : Concluded o m) : Cascade.isPersistent m = o.persistent := by
  unfold Cascade.isPersistent
  rw [h.persistent]
  rfl

/-- The configuration whose server runs if the invocation asks for it. -/
def asked (o : Options) (m : Mapping) : Mapping :=
  if o.server then m.modifyChild "server" fun server => Entries.insert server "run" (.bool true) else m

theorem find?_asked {q : List String} (hq : KeyPath.Apart ["server", "run"] q) : (asked o m).find? q = m.find? q := by
  unfold asked
  split
  · exact find?_insert_setting hq
  · rfl

theorem merge (h : Concluded o m) : Mapping.merge .cascade m o.layer = asked o m := by
  obtain ⟨text, hpublic, hserved⟩ := h.follows
  obtain ⟨paths, hpaths, -⟩ := find?_concat_eq_some (p := ["paths"]).mp hpublic
  obtain ⟨server, hserver, -⟩ := find?_concat_eq_some (p := ["server"]).mp hserved
  rw [find?_singleton] at hpaths hserver
  have hpublicSteps : Step.run m o.publicSteps = (m, none) := by
    refine Step.run_of_settled fun s hs => ?_
    obtain ⟨path, hpath, rfl⟩ := List.mem_map.mp hs
    exact ⟨_, rfl, h.publicPath path (Option.mem_toList.mp hpath)⟩
  have hserverSteps : Step.run m o.serverSteps = (asked o m, none) := by
    unfold Options.serverSteps asked
    cases hasked : o.server with
    | false => rfl
    | true =>
      refine Step.run_cons_eq_ok.mpr ⟨_, Step.apply_write_of_get? rfl hserver, ?_⟩
      rw [← child_of_get? hserver]
      refine Step.run_of_settled fun s hs => ?_
      obtain ⟨port, hport, rfl⟩ := List.mem_map.mp hs
      exact ⟨_, rfl, (find?_insert_setting (by decide)).trans (h.port port hasked (Option.mem_toList.mp hport))⟩
  have hpersistent : Step.run (asked o m) [.write [] "persistent" (constant (.bool o.persistent))] = (asked o m, none) := by
    refine Step.run_of_settled fun s hs => ?_
    rw [List.mem_singleton.mp hs]
    exact ⟨_, rfl, (find?_asked (by decide)).trans ((find?_singleton m "persistent").trans h.persistent)⟩
  have hrun : Step.run m o.layerSteps = (asked o m, none) :=
    Step.run_append_eq_ok.mpr ⟨_, Step.run_append_eq_ok.mpr ⟨_, hpublicSteps, hserverSteps⟩, hpersistent⟩
  rw [Options.run_layerSteps hpaths hserver] at hrun
  exact congrArg Prod.fst hrun

/-- A server that was asked for is stopped again, unless the build goes on watching. -/
theorem stopServer (h : Concluded o m) : Cascade.stopServer (asked o m) = .ok m := by
  have hstays : (o.persistent = false → m.find? ["server", "run"] = some (.bool false)) → Cascade.stopServer m = .ok m :=
    fun hrun => stopServer_self fun hp => hrun (h.isPersistent.symm.trans hp)
  unfold asked
  cases hasked : o.server with
  | false =>
    refine hstays fun hp => ?_
    rw [h.run (.inr hp), hp]
  | true =>
    obtain ⟨server, hserver, hrun⟩ := find?_concat_eq_some (p := ["server"]).mp (h.run (.inl hasked))
    rw [find?_singleton] at hserver
    rw [if_pos rfl]
    show Cascade.stopServer (Entries.insert m "server" (.mapping (Entries.insert (m.child "server") "run" (.bool true)))) = _
    rw [child_of_get? hserver]
    cases hp : o.persistent with
    | true =>
      rw [hp] at hrun
      rw [Entries.insert_of_get?_eq_some hrun, Entries.insert_of_get?_eq_some hserver]
      exact hstays fun hstopped => absurd (hp.symm.trans hstopped) (by decide)
    -- It was asked for in a build that ends: the layer turns it on, and the end of the cascade turns it off.
    | false =>
      have hwatching : Cascade.isPersistent (Entries.insert m "server" (.mapping (Entries.insert server "run" (.bool true)))) =
          false := by
        rw [← hp, ← h.isPersistent]
        unfold Cascade.isPersistent
        rw [Entries.get?_insert, if_neg (by decide)]
      rw [hp] at hrun
      unfold Cascade.stopServer
      rw [hwatching, if_neg (by decide)]
      have hrunning : Entries.get? (Entries.insert m "server" (.mapping (Entries.insert server "run" (.bool true)))) "server" =
          some (.mapping (Entries.insert server "run" (.bool true))) := Entries.get?_insert_self _ _ _
      have hstop : Mapping.editSection _ "server" (fun fields => .ok (Entries.insert fields "run" (.bool false))) = .ok _ :=
        editSection_of_get? hrunning rfl
      rw [hstop, Entries.insert_insert, Entries.insert_insert, Entries.insert_of_get?_eq_some hrun,
        Entries.insert_of_get?_eq_some hserver]

/-- A cascade without environments ends as it began in a configuration that agrees with the invocation. -/
theorem conclude (h : Concluded o m) : Cascade.conclude m o.layer = .ok m := by
  obtain ⟨text, hpublic, hserved⟩ := h.follows
  unfold Cascade.conclude
  rw [h.merge, followPublicPath_self ((find?_asked (by decide)).trans hpublic) ((find?_asked (by decide)).trans hserved)]
  exact h.stopServer

end Concluded

theorem get?_apply_persistent {config final : Mapping} {environments : List String}
    (h : apply config environments o.layer = .ok final) : Entries.get? final "persistent" = some (.bool o.persistent) := by
  rw [← find?_singleton]
  refine find?_apply_of_leaf h (Options.wellKeyed_layer o) rfl (by decide) ?_
  rw [find?_singleton]
  exact o.get?_layer_persistent

theorem concluded_of_apply {config final : Mapping} {environments : List String} {text : String}
    (h : apply config environments o.layer = .ok final) (hpublic : final.find? ["paths", "public"] = some (.string text)) :
    Concluded o final := by
  have hw := Options.wellKeyed_layer o
  have hpersistent := get?_apply_persistent h
  have hwatching : isPersistent final = o.persistent := by
    unfold isPersistent
    rw [hpersistent]
    rfl
  refine ⟨⟨text, hpublic, find?_apply_publicPath h hpublic⟩, ?publicPath, ?run, ?port, hpersistent⟩
  case publicPath =>
    intro path hpath
    exact find?_apply_of_leaf h hw rfl (by decide) (Options.find?_layer_public hpath)
  case run =>
    intro hasked
    cases hon : o.persistent with
    | true =>
      have hserver : o.server = true := hasked.resolve_right (by simp [hon])
      exact find?_apply_server_of_leaf h hw rfl (by decide) (fun _ => hwatching.trans hon) (Options.find?_layer_run hserver)
    | false => exact find?_apply_run h (hwatching.trans hon)
  case port =>
    intro port hasked hport
    exact find?_apply_server_of_leaf h hw rfl (by decide) (by simp) (Options.find?_layer_port hasked hport)

/-! ### What the end of a cascade keeps -/

theorem misses_closing : ∀ q ∈ Options.closingTargets, ∀ target ∈ Options.closingTargets, q ≠ target →
    Misses q (.writes, target) := by decide +kernel

theorem find?_of_closing (h : Step.run c o.closingSteps = (final, none))
    (hq : ∀ target ∈ Options.closingTargets, Misses q (.writes, target)) : final.find? q = c.find? q := by
  refine find?_run_of_misses h fun outline houtline => ?_
  obtain ⟨s, hs, rfl⟩ := List.mem_map.mp houtline
  have hclosing := Options.closing_closingSteps o s hs
  rw [hclosing.outline]
  exact hq _ hclosing.target_mem

/-- What suits a target of the end of a cascade is followed by what suits it. -/
theorem suits_of_closing (h : Step.run c o.closingSteps = (final, none)) {target : List String}
    (htarget : target ∈ Options.closingTargets) (hbefore : ∃ v, c.find? target = some v ∧ Options.Suits target v) :
    ∃ v, final.find? target = some v ∧ Options.Suits target v := by
  have hclosing := Options.closing_closingSteps o
  generalize o.closingSteps = steps at h hclosing
  induction steps generalizing c with
  | nil =>
    cases h
    exact hbefore
  | cons s steps ih =>
    obtain ⟨mid, hmid, hrest⟩ := Step.run_cons_eq_ok.mp h
    have hs := hclosing s List.mem_cons_self
    refine ih ?_ hrest fun t ht => hclosing t (List.mem_cons_of_mem s ht)
    by_cases hsame : s.target = target
    · exact hsame ▸ hs.suits hmid
    · rw [Step.find?_apply_of_misses hmid]
      · exact hbefore
      · rw [hs.outline]
        exact misses_closing _ htarget _ hs.target_mem (Ne.symm hsame)

/-- A step of defaulting that is neither a write nor the question for the output directory is spared. -/
theorem spares_closing : ∀ loaded persistent, ∀ s ∈ outlines loaded persistent,
    s.1 ≠ .writes → s ≠ (.requires, ["paths", "public"]) →
      ∀ target ∈ Options.closingTargets, Spares (.writes, target) s := by decide +kernel

theorem filled_of_closing (h : d.Filled inv c) (hpersistent : o.persistent = inv.persistent)
    (hrun : Step.run c o.closingSteps = (final, none)) (hfinal : Concluded o final) : d.Filled inv final := by
  obtain ⟨text, hpublic, hserved⟩ := hfinal.follows
  intro s hs
  have hspared : s.Steady → (∀ target ∈ Options.closingTargets, Spares (.writes, target) s.outline) → s.Settled final := by
    intro hsteady hspares
    refine (h s hs).run hrun (sound_steps d inv s hs) hsteady
      (fun later hl => (Options.closing_closingSteps o later hl).sound) fun later hl => ?_
    have hclosing := Options.closing_closingSteps o later hl
    rw [hclosing.outline]
    exact hspares _ hclosing.target_mem
  by_cases hw : s.manner = .writes
  · rcases write_cases hs hw with rfl | ⟨path, rfl⟩ | rfl | ⟨hp, rfl⟩
    · exact hspared steady_watchedList
        (by decide : ∀ target ∈ Options.closingTargets, Spares (.writes, target) (.writes, ["paths", "watched"]))
    · exact hspared (steady_write_constant _ _ _)
        (by decide : ∀ target ∈ Options.closingTargets, Spares (.writes, target) (.writes, ["paths", "config"]))
    -- The public path of the server is not spared, but written again from the output directory.
    · refine ⟨.string text, ?_, hserved⟩
      unfold served textAt
      rw [hpublic]
      rfl
    · exact ⟨.bool false, rfl, (hfinal.run (.inr (hpersistent.trans hp))).trans (by rw [hpersistent, hp])⟩
  · by_cases hasks : s.outline = (.requires, ["paths", "public"])
    · cases s with
      | requireText path key =>
        have htarget : path ++ [key] = ["paths", "public"] := congrArg Prod.snd hasks
        exact ⟨text, htarget ▸ hpublic⟩
      | _ => cases congrArg Prod.fst hasks
    · have hmem : s.outline ∈ outlines inv.configPath.isSome inv.persistent := by
        rw [← outline_steps d]
        exact List.mem_map_of_mem hs
      exact hspared (steady_of_manner hw) (spares_closing _ _ _ hmem hw hasks)

end Cascade
end AssetPlan
