import AssetPlan.Proofs.Cascade.Layers
import AssetPlan.Proofs.Value.Pruned

/-! # Cascades over pruned trees

A cascade does not see entries that it never reads: over two trees that differ in such entries only it fails
alike, or its results differ in such entries only. The snapshot copies what is dropped into `overrides`, from
where it may come back as a layer, so what is dropped there must be dropped in a layer, too. -/

namespace AssetPlan
open KeyPath
variable {drop drop' : List String → Bool} {key : String} {path : List String}

/-! ### Merging -/

/-- Paired keys are not dropped where they are replaced together. -/
def MergePolicy.Spares (policy : MergePolicy) (path : List String) (drop : List String → Bool) : Prop :=
  ∀ q, policy.replaces (path ++ q) = true →
    ∀ pair ∈ policy.pairs, drop (q ++ [pair.1]) = false ∧ drop (q ++ [pair.2]) = false

theorem MergePolicy.Spares.tail {policy : MergePolicy} (h : policy.Spares path drop) (key : String) :
    policy.Spares (path ++ [key]) (below drop key) := by
  intro q hq
  rw [List.append_assoc] at hq
  exact h (key :: q) hq

theorem MergePolicy.resetPairs_prune {policy : MergePolicy} (base layer : Mapping)
    (h : ∀ pair ∈ policy.pairs, drop [pair.1] = false ∧ drop [pair.2] = false) :
    policy.resetPairs (base.prune drop) (layer.prune drop) = (policy.resetPairs base layer).prune drop := by
  unfold resetPairs
  revert h
  induction policy.pairs generalizing base with
  | nil => exact fun _ => rfl
  | cons pair pairs ih =>
    intro h
    obtain ⟨hpair, hpairs⟩ := List.forall_mem_cons.mp h
    have hreset : resetPair (base.prune drop) (layer.prune drop) pair = (resetPair base layer pair).prune drop := by
      unfold resetPair
      rw [Mapping.has_prune hpair.1, Mapping.has_prune hpair.2]
      split
      · exact (Mapping.prune_erase base _).symm
      · exact (Mapping.prune_erase base _).symm
      · rfl
    rw [List.foldl_cons, List.foldl_cons, hreset]
    exact ih _ hpairs

namespace Value
variable {policy : MergePolicy}

mutual

/-- Pruning commutes with merging. -/
theorem prune_mergeAt : ∀ {layer base : Value} {path : List String} {drop : List String → Bool}, policy.Spares path drop →
    (mergeAt policy path base layer).prune drop = mergeAt policy path (base.prune drop) (layer.prune drop)
  | .mapping es, base, path, drop, h => by
    cases hbase : base.isMapping with
    | false =>
      rw [mergeAt_over_not_mapping hbase, mergeAt_over_not_mapping]
      rwa [isMapping_prune]
    | true =>
      cases base with
      | mapping bs =>
        rw [prune_mapping, prune_mapping]
        cases hr : policy.replaces path with
        | true =>
          have hpairs := h [] (by rwa [List.append_nil])
          rw [mergeAt_replaced hr, mergeAt_replaced hr, prune_mapping, Mapping.prune_insertAll,
            MergePolicy.resetPairs_prune bs es hpairs]
        | false =>
          rw [mergeAt_merged hr, mergeAt_merged hr, prune_mapping, prune_mergeEntries h]
      | _ => cases hbase
  | .null, _, _, _, _ | .bool _, _, _, _, _ | .number _, _, _, _, _ | .string _, _, _, _, _ | .list _, _, _, _, _
  | .regex _, _, _, _, _ | .predicate _, _, _, _, _ => rfl
termination_by structural layer => layer

theorem prune_mergeEntries : ∀ {layer : List (String × Value)} {base : Mapping} {path : List String}
    {drop : List String → Bool}, policy.Spares path drop → Mapping.prune drop (mergeEntries policy path base layer) =
      mergeEntries policy path (base.prune drop) (Mapping.prune drop layer)
  | [], _, _, _, _ => rfl
  | (key, v) :: rest, base, path, drop, h => by
    rw [mergeEntries_cons, prune_mergeEntries h]
    cases hkey : drop [key] with
    | true => rw [Mapping.prune_insert_dropped hkey, Mapping.prune_cons_dropped hkey]
    | false =>
      have hover : (mergeOver policy (path ++ [key]) (Entries.get? base key) v).prune (below drop key) =
          mergeOver policy (path ++ [key]) (Entries.get? (base.prune drop) key) (v.prune (below drop key)) := by
        rw [Mapping.get?_prune hkey]
        cases Entries.get? base key with
        | none => rfl
        | some old => exact prune_mergeAt (h.tail key)
      rw [Mapping.prune_insert hkey, Mapping.prune_cons_kept hkey, mergeEntries_cons, hover]
termination_by structural layer => layer

end

end Value

theorem Mapping.prune_merge (h : MergePolicy.cascade.Spares [] drop) (base layer : Mapping) :
    (Mapping.merge .cascade base layer).prune drop = Mapping.merge .cascade (base.prune drop) (layer.prune drop) := by
  rw [merge_cascade_eq, merge_cascade_eq]
  exact Value.prune_mergeEntries h

/-! ### Changes that do not see what is dropped -/

/-- A change that does not see what is dropped: of two trees that differ there only it fails alike, or the results
    differ there only. -/
def Blind (drop : List String → Bool) (f : Mapping → Except ConfigError Mapping) : Prop :=
  ∀ ⦃m m' : Mapping⦄, m.prune drop = m'.prune drop → SameOutcome (fun c c' => c.prune drop = c'.prune drop) (f m) (f m')

namespace Blind
variable {α : Type} {f g : Mapping → Except ConfigError Mapping}

theorem of_pruned (h : ∀ m : Mapping, (f m).map (Mapping.prune drop) = (f (m.prune drop)).map (Mapping.prune drop)) :
    Blind drop f := by
  intro m m' hm
  refine SameOutcome.of_map_eq ?_
  rw [h m, h m', hm]

theorem of_commutes (h : ∀ m : Mapping, f (m.prune drop) = (f m).map (Mapping.prune drop)) : Blind drop f := by
  refine of_pruned fun m => ?_
  rw [h]
  cases f m with
  | error e => rfl
  | ok c => exact congrArg Except.ok (Mapping.prune_prune (fun _ hq => hq) c).symm

theorem bind (hf : Blind drop f) (hg : Blind drop g) : Blind drop fun m => f m >>= g :=
  fun _ _ hm => (hf hm).bind fun _ _ hc => hg hc

theorem foldlM {step : Mapping → α → Except ConfigError Mapping} (h : ∀ a, Blind drop (step · a)) (as : List α) :
    Blind drop fun m => as.foldlM step m := by
  induction as with
  | nil => exact fun _ _ hm => .ok hm
  | cons a rest ih => exact (h a).bind ih

end Blind

/-! ### The phases of a cascade -/

namespace Cascade
open Mapping
variable {config current layer last : Mapping} {environments : List String}

/-- What is dropped is never read by a cascade, and it is dropped alike in the sections, in the snapshot of them,
    and in a layer. -/
structure Unread (drop : List String → Bool) : Prop where
  routing : MergePolicy.cascade.Spares [] drop
  plugins : Whole drop ["plugins"]
  server : Whole drop ["server"]
  persistent : Whole drop ["persistent"]
  publicPath : Whole drop ["paths", "public"]
  overrides : ∀ environment, Kept drop ["overrides", environment]
  snapshot : ∀ key q, key ≠ "overrides" → drop ("overrides" :: snapshotName :: key :: q) = drop (key :: q)
  layers : ∀ environment q, drop ("overrides" :: environment :: q) = true → drop q = true

namespace Unread
variable (h : Unread drop)
include h

theorem names_prune (toggle : Toggle) (m : Mapping) : toggle.names (m.prune drop) = toggle.names m := by
  unfold Toggle.names
  rw [get?_prune_of_whole h.plugins]

theorem carry_prune (toggle : Toggle) (current layer : Mapping) :
    toggle.carry (current.prune drop) (layer.prune drop) = (toggle.carry current layer).prune drop := by
  unfold Toggle.carry Toggle.carriedNames
  rw [h.names_prune, h.names_prune, h.names_prune]
  split
  · rfl
  · exact modifyChild_prune h.plugins layer _

theorem reconcileToggles_prune (current layer : Mapping) :
    reconcileToggles (current.prune drop) (layer.prune drop) = (reconcileToggles current layer).prune drop := by
  unfold reconcileToggles acceptsPlugins
  rw [get?_prune_of_whole h.plugins, h.carry_prune, h.carry_prune]
  exact (apply_ite (prune drop) _ _ _).symm

theorem prune_applyLayer (current layer : Mapping) :
    (applyLayer current layer).prune drop = applyLayer (current.prune drop) (layer.prune drop) := by
  unfold applyLayer
  rw [prune_merge h.routing, h.reconcileToggles_prune]

theorem layer?_prune (config : Mapping) (environment : String) : layer? (config.prune drop) environment =
    (layer? config environment).map (Option.map (prune (below (below drop "overrides") environment))) := by
  have hkept := h.overrides environment
  have hfound : (Entries.get? (config.prune drop) "overrides").bind (·.get? environment) =
      ((Entries.get? config "overrides").bind (·.get? environment)).map
        (Value.prune (below (below drop "overrides") environment)) := by
    rw [get?_prune hkept.head]
    cases Entries.get? config "overrides" with
    | none => rfl
    | some v =>
      cases v with
      | mapping overrides => exact get?_prune hkept.tail.head overrides
      | _ => rfl
  unfold layer?
  rw [hfound]
  cases (Entries.get? config "overrides").bind (·.get? environment) with
  | none => rfl
  | some v => cases v <;> rfl

theorem blind_applyEnvironment (environment : String) : Blind drop (applyEnvironment · environment) := by
  refine .of_pruned fun m => ?_
  have hlayer := h.layer?_prune m environment
  have hagain : ∀ m : Mapping, (m.prune drop).prune drop = m.prune drop := prune_prune fun _ hq => hq
  unfold applyEnvironment
  rw [hlayer]
  cases layer? m environment with
  | error e => rfl
  | ok found =>
    cases found with
    | none => exact congrArg Except.ok (hagain m).symm
    | some layer =>
      refine congrArg Except.ok ?_
      show (applyLayer m layer).prune drop = (applyLayer (m.prune drop) (layer.prune _)).prune drop
      have hdrop : ∀ q, below (below drop "overrides") environment q = true → drop q = true := h.layers environment
      rw [h.prune_applyLayer, h.prune_applyLayer, hagain, prune_prune hdrop]

theorem snapshot_prune (m : Mapping) :
    Cascade.snapshot (m.prune drop) = (Cascade.snapshot m).prune (below (below drop "overrides") snapshotName) := by
  unfold Cascade.snapshot
  induction m with
  | nil => rfl
  | cons e rest ih =>
    obtain ⟨key, v⟩ := e
    by_cases hover : key = "overrides"
    · subst hover
      rw [prune_cons_kept (h.overrides snapshotName).head, List.filter_cons_of_neg (by simp),
        List.filter_cons_of_neg (by simp), ih]
    · have hbelow : ∀ q, below (below drop "overrides") snapshotName (key :: q) = drop (key :: q) :=
        fun q => h.snapshot key q hover
      have hsame : below (below (below drop "overrides") snapshotName) key = below drop key := funext hbelow
      cases hkey : drop [key] with
      | true =>
        rw [prune_cons_dropped hkey, ih, List.filter_cons]
        split
        · rw [prune_cons_dropped ((hbelow []).trans hkey)]
        · rfl
      | false =>
        rw [prune_cons_kept hkey, List.filter_cons, List.filter_cons, Value.isMapping_prune, ih]
        split
        · rw [prune_cons_kept ((hbelow []).trans hkey), hsame]
        · rfl

theorem withSnapshot_prune (m : Mapping) : withSnapshot (m.prune drop) = (withSnapshot m).map (prune drop) := by
  have hkept := h.overrides snapshotName
  unfold withSnapshot
  rw [hasValue_prune hkept.head]
  split
  · refine editSection_prune hkept.head (fun fields => ?_) m
    rw [h.snapshot_prune]
    exact congrArg Except.ok (prune_insert hkept.tail.head fields (.mapping (Cascade.snapshot m))).symm
  · rfl

theorem blind_applyEnvironments (environments : List String) : Blind drop (applyEnvironments · environments) := by
  cases environments with
  | nil => exact fun _ _ hm => .ok hm
  | cons environment rest =>
    exact (Blind.of_commutes h.withSnapshot_prune).bind (.foldlM h.blind_applyEnvironment (environment :: rest))

theorem editServer_prune (setting : String) (v : Value) (m : Mapping) :
    (m.prune drop).editSection "server" (fun server => .ok (Entries.insert server setting v)) =
      (m.editSection "server" fun server => .ok (Entries.insert server setting v)).map (prune drop) := by
  have hwhole : ∀ m : Mapping, m.prune (below drop "server") = m := fun m => Value.pruneEntries_of_never h.server.tail.never
  refine editSection_prune h.server.kept.head (fun fields => ?_) m
  rw [hwhole]
  exact congrArg Except.ok (hwhole _).symm

theorem followPublicPath_prune (m : Mapping) : followPublicPath (m.prune drop) = (followPublicPath m).map (prune drop) := by
  unfold followPublicPath
  rw [find?_prune_of_whole h.publicPath]
  cases m.find? ["paths", "public"] with
  | none => rfl
  | some v => exact h.editServer_prune "publicPath" v m

theorem stopServer_prune (m : Mapping) : stopServer (m.prune drop) = (stopServer m).map (prune drop) := by
  unfold stopServer isPersistent
  rw [get?_prune_of_whole h.persistent]
  split
  · rfl
  · exact h.editServer_prune "run" (.bool false) m

/-- A cascade does not see what it never reads. -/
theorem blind_apply (environments : List String) (last : Mapping) : Blind drop (apply · environments last) := by
  have hmerge : Blind drop fun m => .ok (Mapping.merge .cascade m last) := by
    intro m m' hm
    refine .ok ?_
    rw [prune_merge h.routing, prune_merge h.routing, hm]
  have hserver := (Blind.of_commutes h.followPublicPath_prune).bind (.of_commutes h.stopServer_prune)
  exact (h.blind_applyEnvironments environments).bind (hmerge.bind hserver)

end Unread
end Cascade
end AssetPlan
