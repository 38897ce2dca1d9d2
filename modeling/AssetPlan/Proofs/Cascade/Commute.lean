import AssetPlan.Proofs.Cascade.Layers
import AssetPlan.Proofs.Value.Equality

/-! # Independent environments commute

Two layers that have no key in common write to different sections, so their order shows in the order of the keys
only. Both carry the lists of plugins along if neither names plugins itself: what carrying does to the lists
depends on the lists alone, and it is done twice in either order. The environment of the snapshot is no
exception, as long as one looks at the snapshot and not at what a project declares under that name. -/

namespace AssetPlan.Cascade
open Mapping
variable {config config' current current' layer layer' last a b m m' : Mapping} {key : String}

/-- The same is found under every key. -/
def SameEntries (m m' : Mapping) : Prop := ∀ key, Entries.get? m key = Entries.get? m' key

/-! ### One layer -/

theorem get?_merge_congr (hw : Entries.WellKeyed layer) (hw' : Entries.WellKeyed layer')
    (hbase : Entries.get? m key = Entries.get? m' key) (hlayer : Entries.get? layer key = Entries.get? layer' key) :
    Entries.get? (Mapping.merge .cascade m layer) key = Entries.get? (Mapping.merge .cascade m' layer') key := by
  cases hget : Entries.get? layer key with
  | none => rw [get?_merge_of_none hget, get?_merge_of_none (hlayer.symm.trans hget), hbase]
  | some v => rw [get?_merge_of_some hw hget, get?_merge_of_some hw' (hlayer.symm.trans hget), hbase]

theorem names_congr (h : Entries.get? m "plugins" = Entries.get? m' "plugins") (toggle : Toggle) :
    toggle.names m = toggle.names m' := by
  unfold Toggle.names
  rw [h]

/-- What is carried into a layer depends on the plugins of the configuration and of the layer. -/
theorem plugins_carry_congr (toggle : Toggle) (hcurrent : Entries.get? current "plugins" = Entries.get? current' "plugins")
    (hlayer : Entries.get? layer "plugins" = Entries.get? layer' "plugins") :
    Entries.get? (toggle.carry current layer) "plugins" = Entries.get? (toggle.carry current' layer') "plugins" := by
  have hchild : layer.child "plugins" = layer'.child "plugins" := by
    unfold child
    rw [hlayer]
  unfold Toggle.carry Toggle.carriedNames
  rw [names_congr hcurrent, names_congr hlayer, names_congr hlayer]
  split
  · exact hlayer
  · rw [modifyChild, modifyChild, Entries.get?_insert_self, Entries.get?_insert_self, hchild]

theorem plugins_reconcileToggles_congr (hcurrent : Entries.get? current "plugins" = Entries.get? current' "plugins")
    (hlayer : Entries.get? layer "plugins" = Entries.get? layer' "plugins") :
    Entries.get? (reconcileToggles current layer) "plugins" = Entries.get? (reconcileToggles current' layer') "plugins" := by
  have haccepts : acceptsPlugins layer = acceptsPlugins layer' := by
    unfold acceptsPlugins
    rw [hlayer]
  unfold reconcileToggles
  rw [haccepts]
  split
  · exact plugins_carry_congr .off hcurrent (plugins_carry_congr .on hcurrent hlayer)
  · exact hlayer

/-- A layer leaves under a key what depends on the base and on the layer there, and so it does with the plugins. -/
theorem get?_applyLayer_congr (hw : (Value.mapping layer).WellKeyed) (hw' : (Value.mapping layer').WellKeyed)
    (hbase : Entries.get? current key = Entries.get? current' key)
    (hlayer : Entries.get? layer key = Entries.get? layer' key) :
    Entries.get? (applyLayer current layer) key = Entries.get? (applyLayer current' layer') key := by
  refine get?_merge_congr (wellKeyed_reconcileToggles hw).1 (wellKeyed_reconcileToggles hw').1 hbase ?_
  by_cases hkey : key = "plugins"
  · subst hkey
    exact plugins_reconcileToggles_congr hbase hlayer
  · rw [get?_reconcileToggles hkey, get?_reconcileToggles hkey, hlayer]

/-- Other keys than those of the layer and the plugins are left alone. -/
theorem get?_applyLayer_of_none (hkey : key ≠ "plugins") (h : Entries.get? layer key = none) :
    Entries.get? (applyLayer current layer) key = Entries.get? current key := by
  refine get?_merge_of_none ?_
  rwa [get?_reconcileToggles hkey]

/-- Two layers without plugins and with no key in common. -/
structure Independent (a b : Mapping) : Prop where
  keys : ∀ key, Entries.has a key = true → Entries.has b key = false
  plugins : Entries.get? a "plugins" = none ∧ Entries.get? b "plugins" = none
  overrides : Entries.get? a "overrides" = none ∧ Entries.get? b "overrides" = none

theorem Independent.applyLayer_comm (h : Independent a b) (ha : (Value.mapping a).WellKeyed)
    (hb : (Value.mapping b).WellKeyed) (current : Mapping) :
    SameEntries (applyLayer (applyLayer current a) b) (applyLayer (applyLayer current b) a) := by
  intro key
  by_cases hkey : key = "plugins"
  · subst hkey
    have hnone : Entries.get? a "plugins" = Entries.get? b "plugins" := h.plugins.1.trans h.plugins.2.symm
    exact get?_applyLayer_congr hb ha (get?_applyLayer_congr ha hb rfl hnone) hnone.symm
  · cases hget : Entries.get? a key with
    | none =>
      rw [get?_applyLayer_of_none hkey hget]
      exact get?_applyLayer_congr hb hb (get?_applyLayer_of_none hkey hget) rfl
    | some v =>
      have hother : Entries.get? b key = none := by
        have hhas := h.keys key (by rw [Entries.has, hget]; rfl)
        rwa [Entries.has, Option.isSome_eq_false_iff, Option.isNone_iff_eq_none] at hhas
      rw [get?_applyLayer_of_none hkey hother]
      exact get?_applyLayer_congr ha ha (get?_applyLayer_of_none hkey hother).symm rfl

/-! ### The end of a cascade -/

theorem editSection_sameEntries (h : SameEntries m m') (key : String) (f : Mapping → Except ConfigError Mapping) :
    SameOutcome SameEntries (m.editSection key f) (m'.editSection key f) := by
  have hfields : m.fields? key = m'.fields? key := by
    unfold fields?
    rw [h key]
  unfold editSection
  rw [hfields]
  cases m'.fields? key with
  | error e => exact .error e
  | ok fields =>
    show SameOutcome _ (f fields >>= _) (f fields >>= _)
    cases f fields with
    | error e => exact .error e
    | ok fields' =>
      refine .ok fun key' => ?_
      rw [Entries.get?_insert, Entries.get?_insert, h key']

theorem followPublicPath_sameEntries (h : SameEntries m m') :
    SameOutcome SameEntries (followPublicPath m) (followPublicPath m') := by
  unfold followPublicPath
  rw [find?_congr (h "paths")]
  cases m'.find? ["paths", "public"] with
  | none => exact .ok h
  | some path => exact editSection_sameEntries h "server" _

theorem stopServer_sameEntries (h : SameEntries m m') : SameOutcome SameEntries (stopServer m) (stopServer m') := by
  unfold stopServer isPersistent
  rw [h "persistent"]
  split
  · exact .ok h
  · exact editSection_sameEntries h "server" _

/-- What comes after the environments does not see the order of the keys. -/
theorem finish_sameEntries (h : SameEntries m m') (hlast : Entries.WellKeyed last) :
    SameOutcome SameEntries (followPublicPath (Mapping.merge .cascade m last) >>= stopServer)
      (followPublicPath (Mapping.merge .cascade m' last) >>= stopServer) := by
  have hmerge : SameEntries (Mapping.merge .cascade m last) (Mapping.merge .cascade m' last) :=
    fun key => get?_merge_congr hlast hlast (h key) rfl
  exact (followPublicPath_sameEntries hmerge).bind fun _ _ hserved => stopServer_sameEntries hserved

/-! ### Results without a key twice -/

theorem wellKeyed_editSection {f : Mapping → Except ConfigError Mapping} (hw : (Value.mapping m).WellKeyed)
    (hf : ∀ old fields, (Value.mapping old).WellKeyed → f old = .ok fields → (Value.mapping fields).WellKeyed)
    (h : m.editSection key f = .ok m') : (Value.mapping m').WellKeyed := by
  obtain ⟨fields, hfields, rfl⟩ := editSection_eq_ok h
  exact hw.insert key (hf _ _ (hw.child key) hfields)

theorem wellKeyed_followPublicPath (hw : (Value.mapping m).WellKeyed) (h : followPublicPath m = .ok m') :
    (Value.mapping m').WellKeyed := by
  unfold followPublicPath at h
  split at h
  · cases h
    exact hw
  · rename_i path hpath
    refine wellKeyed_editSection hw (fun old fields hold hf => ?_) h
    cases hf
    exact hold.insert _ (hw.find? hpath)

theorem wellKeyed_stopServer (hw : (Value.mapping m).WellKeyed) (h : stopServer m = .ok m') : (Value.mapping m').WellKeyed := by
  unfold stopServer at h
  split at h
  · cases h
    exact hw
  · refine wellKeyed_editSection hw (fun old fields hold hf => ?_) h
    cases hf
    exact hold.insert _ trivial

theorem wellKeyed_finish {final : Mapping} (hw : (Value.mapping m).WellKeyed) (hlast : (Value.mapping last).WellKeyed)
    (h : followPublicPath (Mapping.merge .cascade m last) >>= stopServer = .ok final) : (Value.mapping final).WellKeyed := by
  obtain ⟨followed, hfollowed, hstopped⟩ := bind_eq_ok.mp h
  exact wellKeyed_stopServer (wellKeyed_followPublicPath (wellKeyed_merge hw hlast) hfollowed) hstopped

theorem wellKeyed_apply {environments : List String} {final : Mapping} (hw : (Value.mapping config).WellKeyed)
    (hlast : (Value.mapping last).WellKeyed) (h : apply config environments last = .ok final) :
    (Value.mapping final).WellKeyed := by
  obtain ⟨current, hcurrent, h⟩ := bind_eq_ok.mp h
  exact wellKeyed_finish (wellKeyed_applyEnvironments hw hcurrent) hlast h

/-! ### Both orders -/

/-- Without a mapping for the overrides no environment can be applied. -/
theorem applyEnvironments_of_misshapen {v : Value} (hv : Entries.get? config "overrides" = some v) (hnull : v.isNull = false)
    (hmapping : v.isMapping = false) (environment : String) (rest : List String) :
    applyEnvironments config (environment :: rest) = .error (.structural ["overrides"] (.ofKind .mapping v)) := by
  show (withSnapshot config >>= fun first => (environment :: rest).foldlM applyEnvironment first) = _
  unfold withSnapshot editSection fields?
  rw [if_pos (hasValue_iff.mpr ⟨v, hv, hnull⟩), hv]
  cases v with
  | null => cases hnull
  | mapping es => cases hmapping
  | _ => rfl

theorem hasValue_of_layerOf? {environment : String} (h : layerOf? config environment = some layer) :
    config.hasValue "overrides" = true := by
  cases hunset : config.hasValue "overrides" with
  | true => rfl
  | false =>
    unfold layerOf? declaredLayer? at h
    rw [hunset, if_neg (fun hsnapshot => Bool.noConfusion hsnapshot.1)] at h
    unfold hasValue at hunset
    cases hv : Entries.get? config "overrides" with
    | none =>
      rw [hv] at h
      cases h
    | some v =>
      rw [hv] at h hunset
      cases v with
      | null => cases h
      | _ => cases hunset

theorem declarable_of_layerOf? {environment : String} (h : layerOf? config environment = some layer)
    (hname : environment ≠ snapshotName) : Declarable config environment := by
  unfold layerOf? at h
  rw [if_neg fun hsnapshot => hname hsnapshot.2] at h
  intro v hv
  unfold declaredLayer? at h
  rw [hv] at h
  cases v with
  | mapping es => exact .inr rfl
  | _ => cases h

theorem applyEnvironments_pair {overrides : Mapping} {one other : String}
    (hover : Entries.get? config "overrides" = some (.mapping overrides)) (hone : layerOf? config one = some a)
    (hother : layerOf? config other = some b) (ha : Entries.get? a "overrides" = none)
    (hb : Entries.get? b "overrides" = none) :
    applyEnvironments config [one, other] = .ok (applyLayer (applyLayer (snapshotted config) a) b) := by
  have hlayers : layers config [one, other] = [a, b] := by simp [layers, hone, hother]
  have hdeclarable : ∀ environment ∈ [one, other], environment ≠ snapshotName → Declarable config environment := by
    intro environment hmem hname
    rcases List.mem_cons.mp hmem with rfl | hmem
    · exact declarable_of_layerOf? hone hname
    · obtain rfl := List.mem_singleton.mp hmem
      exact declarable_of_layerOf? hother hname
  have hl : ∀ layer ∈ layers config [one, other], Entries.get? layer "overrides" = none := by
    rw [hlayers]
    exact List.forall_mem_cons.mpr ⟨ha, List.forall_mem_singleton.mpr hb⟩
  rw [applyEnvironments_eq hover hdeclarable hl, overlaid, hlayers]
  rfl

/-- Independent environments commute: in either order the cascade fails with the same error or gives equal trees. -/
theorem apply_comm {first second : String} (hw : (Value.mapping config).WellKeyed) (hwl : (Value.mapping last).WellKeyed)
    (hfirst : layerOf? config first = some a) (hsecond : layerOf? config second = some b) (h : Independent a b) :
    SameOutcome (fun t t' => (Value.mapping t).equal (.mapping t') = true) (apply config [first, second] last)
      (apply config [second, first] last) := by
  have hset : config.hasValue "overrides" = true := hasValue_of_layerOf? hfirst
  obtain ⟨v, hover, hnull⟩ := hasValue_iff.mp hset
  unfold apply
  cases hmapping : v.isMapping with
  | false =>
    rw [applyEnvironments_of_misshapen hover hnull hmapping, applyEnvironments_of_misshapen hover hnull hmapping]
    exact .error _
  | true =>
    cases v with
    | mapping overrides =>
      have ha : (Value.mapping a).WellKeyed := wellKeyed_layers hw (show a ∈ layers config [first] by simp [layers, hfirst])
      have hb : (Value.mapping b).WellKeyed := wellKeyed_layers hw (show b ∈ layers config [second] by simp [layers, hsecond])
      have hstart := wellKeyed_snapshotted hw
      rw [applyEnvironments_pair hover hfirst hsecond h.overrides.1 h.overrides.2,
        applyEnvironments_pair hover hsecond hfirst h.overrides.2 h.overrides.1]
      refine (finish_sameEntries (h.applyLayer_comm ha hb _) hwl.1).imp fun t t' ht ht' hsame => ?_
      exact Value.equal_of_get?_eq
        (wellKeyed_finish (wellKeyed_applyLayer (wellKeyed_applyLayer hstart ha) hb) hwl ht)
        (wellKeyed_finish (wellKeyed_applyLayer (wellKeyed_applyLayer hstart hb) ha) hwl ht') hsame
    | _ => cases hmapping

/-- A project with overlapping lists of plugins, and two environments of which one moves the output and the other
    one sets a flag. -/
def pairedConfig : Mapping := [
  ("plugins", .mapping [("on", .string "sass"), ("off", .list [.string "sass", .string "lint"])]),
  ("overrides", .mapping [
    ("ci", .mapping [("paths", .mapping [("public", .string "out")])]), ("dev", .mapping [("sourceMaps", .bool true)])])]

theorem apply_comm_pairedConfig : ∃ t t', apply pairedConfig ["ci", "dev"] [] = .ok t ∧
    apply pairedConfig ["dev", "ci"] [] = .ok t' ∧ (Value.mapping t).equal (.mapping t') = true := by
  have hw : (Value.mapping pairedConfig).WellKeyed := by decide +kernel
  have hindependent : Independent [("paths", .mapping [("public", .string "out")])] [("sourceMaps", .bool true)] := by
    refine ⟨fun key hkey => ?_, ⟨rfl, rfl⟩, ⟨rfl, rfl⟩⟩
    obtain rfl : key = "paths" := List.mem_singleton.mp (Entries.has_iff_mem_keys.mp hkey)
    rfl
  have hsame := apply_comm hw Value.wellKeyed_nil (show layerOf? pairedConfig "ci" = _ from rfl)
    (show layerOf? pairedConfig "dev" = _ from rfl) hindependent
  have hok : (apply pairedConfig ["ci", "dev"] []).isOk = true := by decide +kernel
  have hok' : (apply pairedConfig ["dev", "ci"] []).isOk = true := by decide +kernel
  obtain ⟨t, ht⟩ := exists_ok_of_isOk hok
  obtain ⟨t', ht'⟩ := exists_ok_of_isOk hok'
  rw [ht, ht'] at hsame
  exact ⟨t, t', ht, ht', hsame.of_ok⟩

/-- A project that declares an environment under the name of the snapshot, which is written over it. -/
def shadowedConfig : Mapping := [
  ("paths", .mapping [("root", .string ".")]),
  ("overrides", .mapping [
    ("_default", .mapping [("optimize", .bool true)]), ("ci", .mapping [("paths", .mapping [("root", .string "build")])])])]

/-- What is declared under the name of the snapshot has no key in common with another environment, and still the
    two do not commute: the snapshot stands for it, and puts back what the other one moved. -/
theorem shadowed_not_comm : declaredLayer? shadowedConfig "_default" = some [("optimize", .bool true)] ∧
    declaredLayer? shadowedConfig "ci" = some [("paths", .mapping [("root", .string "build")])] ∧
    ∃ t t', apply shadowedConfig ["_default", "ci"] [] = .ok t ∧ apply shadowedConfig ["ci", "_default"] [] = .ok t' ∧
      (Value.mapping t).equal (.mapping t') = false := by
  have hunequal : ((apply shadowedConfig ["_default", "ci"] []).toOption.bind fun t =>
      (apply shadowedConfig ["ci", "_default"] []).toOption.map fun t' =>
        (Value.mapping t).equal (.mapping t')) = some false := by decide +kernel
  refine ⟨rfl, rfl, ?_⟩
  cases ht : apply shadowedConfig ["_default", "ci"] [] with
  | error e =>
    rw [ht] at hunequal
    cases hunequal
  | ok t =>
    cases ht' : apply shadowedConfig ["ci", "_default"] [] with
    | error e =>
      rw [ht, ht'] at hunequal
      cases hunequal
    | ok t' =>
      rw [ht, ht'] at hunequal
      exact ⟨t, t', rfl, rfl, Option.some.inj hunequal⟩

end AssetPlan.Cascade
