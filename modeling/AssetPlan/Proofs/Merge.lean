import AssetPlan.Proofs.Merge.Levels

/-! # Look-ups in a merged tree

What a merged tree holds at the end of a chain of keys. A value of the layer that is no mapping stands there
whatever the base holds. Where the layer is silent the base decides, as long as the chain goes through no
replace node. -/

namespace AssetPlan
namespace Value
variable {policy : MergePolicy} {path : List String} {base layer : Mapping} {key : String} {v : Value}

/-! ### What a layer leaves to the base -/

/-- The tree says nothing about a path: it holds nothing there, and only mappings on the way. -/
def Silent : Value → List String → Prop
  | _, [] => False
  | v, key :: path => v.isMapping ∧ ∀ u, v.get? key = some u → u.Silent path

theorem Silent.find? {v : Value} {q : List String} (h : v.Silent q) : v.find? q = none := by
  induction q generalizing v with
  | nil => exact h.elim
  | cons key q ih =>
    rw [find?_cons]
    cases hu : v.get? key with
    | none => rfl
    | some u => exact ih (h.2 u hu)

/-- To say nothing about a path is to hold nothing at its end and only mappings before. -/
theorem silent_iff {v : Value} {q : List String} :
    v.Silent q ↔ v.find? q = none ∧ ∀ front, front <+: q → ∀ u, v.find? front = some u → u.isMapping = true := by
  induction q generalizing v with
  | nil => exact ⟨False.elim, fun h => nomatch h.1⟩
  | cons key q ih =>
    constructor
    · intro h
      refine ⟨h.find?, fun front hfront u hu => ?_⟩
      cases front with
      | nil =>
        cases hu
        exact h.1
      | cons first front =>
        obtain ⟨rfl, hbelow⟩ := List.cons_prefix_cons.mp hfront
        obtain ⟨w, hw, hu⟩ := Option.bind_eq_some_iff.mp hu
        exact (ih.mp (h.2 w hw)).2 front hbelow u hu
    · rintro ⟨hnone, hmappings⟩
      refine ⟨hmappings [] List.nil_prefix v rfl, fun u hu => ih.mpr ⟨?_, fun front hfront w hw => ?_⟩⟩
      · rwa [find?_cons, hu] at hnone
      · refine hmappings (key :: front) (List.cons_prefix_cons.mpr ⟨rfl, hfront⟩) w ?_
        rw [find?_cons, hu]
        exact hw

/-- Whether the tree says nothing about a path. -/
def decSilent : (q : List String) → (v : Value) → Decidable (v.Silent q)
  | [], _ => isFalse id
  | key :: q, v =>
    have : DecidablePred (Silent · q) := decSilent q
    inferInstanceAs (Decidable (v.isMapping = true ∧ ∀ u ∈ v.get? key, u.Silent q))

instance (v : Value) (q : List String) : Decidable (v.Silent q) := decSilent q v

/-! ### Below a key -/

section Places
variable {q : List String} {base layer old new : Value} {bs ls ms ns : Mapping}

theorem find?_mergeAt_replaced (hw : Entries.WellKeyed ls) (hr : policy.replaces path = true) :
    (mergeAt policy path (.mapping bs) (.mapping ls)).find? (key :: q) =
      ((Entries.get? ls key).or (if policy.Drops ls key then none else Entries.get? bs key)).bind (find? · q) := by
  rw [mergeAt_replaced hr, find?_mapping, get?_replaced hw]

theorem find?_mergeAt_of_none (hr : policy.replaces path = false) (h : Entries.get? ls key = none) :
    (mergeAt policy path (.mapping bs) (.mapping ls)).find? (key :: q) = (Entries.get? bs key).bind (find? · q) := by
  rw [mergeAt_merged hr, find?_mapping, get?_mergeEntries_of_none h]

theorem find?_mergeAt_of_some (hw : Entries.WellKeyed ls) (hr : policy.replaces path = false)
    (h : Entries.get? ls key = some new) : (mergeAt policy path (.mapping bs) (.mapping ls)).find? (key :: q) =
      (mergeOver policy (path ++ [key]) (Entries.get? bs key) new).find? q := by
  rw [mergeAt_merged hr, find?_mapping, get?_mergeEntries_of_some hw h]
  rfl

/-! ### Places where two trees are merged -/

/-- Two trees are merged at the end of a chain of keys: both hold mappings there, and none before is replaced.
    `path` leads to the trees. -/
structure MergedAt (policy : MergePolicy) (path : List String) (base layer : Value) (q : List String) (bs ls : Mapping) :
    Prop where
  base : base.find? q = some (.mapping bs)
  layer : layer.find? q = some (.mapping ls)
  before : ∀ front, front <+: q → front ≠ q → policy.replaces (path ++ front) = false

/-- A chain of keys is cut off at a replace node: the key behind the node is one that the layer has there or that is
    dropped there. -/
def CutOff (policy : MergePolicy) (path : List String) (base layer : Value) (q : List String) : Prop :=
  ∃ node key rest bs ls, q = node ++ key :: rest ∧ MergedAt policy path base layer node bs ls ∧
    policy.replaces (path ++ node) = true ∧ (key ∈ Entries.keys ls ∨ policy.Drops ls key)

namespace MergedAt

theorem nil (policy : MergePolicy) (path : List String) (bs ls : Mapping) :
    MergedAt policy path (.mapping bs) (.mapping ls) [] bs ls :=
  ⟨rfl, rfl, fun _ hfront hne => absurd (List.prefix_nil.mp hfront) hne⟩

theorem cons (hold : Entries.get? bs key = some old) (hnew : Entries.get? ls key = some new)
    (hr : policy.replaces path = false) (h : MergedAt policy (path ++ [key]) old new q ms ns) :
    MergedAt policy path (.mapping bs) (.mapping ls) (key :: q) ms ns where
  base := (congrArg (·.bind (find? · q)) hold).trans h.base
  layer := (congrArg (·.bind (find? · q)) hnew).trans h.layer
  before front hfront hne := by
    cases front with
    | nil => rwa [List.append_nil]
    | cons first front =>
      obtain ⟨rfl, hbelow⟩ := List.cons_prefix_cons.mp hfront
      have hbefore := h.before front hbelow fun heq => hne (heq ▸ rfl)
      rwa [List.append_assoc] at hbefore

theorem uncons (h : MergedAt policy path base layer (key :: q) ms ns) :
    ∃ bs ls old new, base = .mapping bs ∧ layer = .mapping ls ∧ Entries.get? bs key = some old ∧
      Entries.get? ls key = some new ∧ policy.replaces path = false ∧ MergedAt policy (path ++ [key]) old new q ms ns := by
  obtain ⟨bs, rfl⟩ := exists_of_find?_mapping h.base
  obtain ⟨ls, rfl⟩ := exists_of_find?_mapping h.layer
  obtain ⟨old, hold, hbase⟩ := Option.bind_eq_some_iff.mp h.base
  obtain ⟨new, hnew, hlayer⟩ := Option.bind_eq_some_iff.mp h.layer
  have hr := h.before [] List.nil_prefix (by simp)
  rw [List.append_nil] at hr
  refine ⟨bs, ls, old, new, rfl, rfl, hold, hnew, hr, hbase, hlayer, fun front hfront hne => ?_⟩
  rw [List.append_assoc]
  exact h.before (key :: front) (List.cons_prefix_cons.mpr ⟨rfl, hfront⟩) fun heq => hne (List.cons.inj heq).2

theorem find?_mergeAt (hw : layer.WellKeyed) (h : MergedAt policy path base layer q bs ls) :
    (mergeAt policy path base layer).find? q = some (mergeAt policy (path ++ q) (.mapping bs) (.mapping ls)) := by
  induction q generalizing path base layer with
  | nil =>
    cases h.base
    cases h.layer
    rw [List.append_nil]
    rfl
  | cons key q ih =>
    obtain ⟨es, fs, old, new, rfl, rfl, hold, hnew, hr, hrest⟩ := h.uncons
    have hbelow := ih (hw.get? hnew) hrest
    rw [List.append_assoc] at hbelow
    rw [find?_mergeAt_of_some hw.1 hr hnew, hold]
    exact hbelow

end MergedAt

theorem CutOff.cons (hold : Entries.get? bs key = some old) (hnew : Entries.get? ls key = some new)
    (hr : policy.replaces path = false) (h : CutOff policy (path ++ [key]) old new q) :
    CutOff policy path (.mapping bs) (.mapping ls) (key :: q) := by
  obtain ⟨node, next, rest, ms, ns, rfl, hmerged, hreplaced, hcut⟩ := h
  rw [List.append_assoc] at hreplaced
  exact ⟨key :: node, next, rest, ms, ns, rfl, hmerged.cons hold hnew hr, hreplaced, hcut⟩

/-! ### What stands at the end of a chain of keys -/

/-- The layer wins with what is no mapping, and with anything below a replace node. -/
theorem find?_mergeAt_of_whole (hw : layer.WellKeyed)
    (hv : v.isMapping = false ∨ ∃ node, node <+: q ∧ node ≠ q ∧ policy.replaces (path ++ node) = true)
    (h : layer.find? q = some v) : (mergeAt policy path base layer).find? q = some v := by
  induction q generalizing path base layer with
  | nil =>
    cases h
    rcases hv with hv | ⟨node, hnode, hne, -⟩
    · rw [mergeAt_of_not_mapping hv]
      rfl
    · exact absurd (List.prefix_nil.mp hnode) hne
  | cons key q ih =>
    rcases mappings_or_not base layer with ⟨bs, ls, rfl, rfl⟩ | hbase | hlayer
    · obtain ⟨new, hnew, hbelow⟩ := Option.bind_eq_some_iff.mp h
      change Entries.get? ls key = some new at hnew
      cases hr : policy.replaces path with
      | true =>
        -- The child of the layer is taken whole.
        rw [find?_mergeAt_replaced hw.1 hr, hnew]
        exact hbelow
      | false =>
        rw [find?_mergeAt_of_some hw.1 hr hnew]
        cases Entries.get? bs key with
        | none => exact hbelow
        | some old =>
          refine ih (hw.get? hnew) (hv.imp_right ?_) hbelow
          rintro ⟨node, hnode, hne, hreplaced⟩
          cases node with
          | nil =>
            rw [List.append_nil, hr] at hreplaced
            cases hreplaced
          | cons first node =>
            obtain ⟨rfl, hbefore⟩ := List.cons_prefix_cons.mp hnode
            exact ⟨node, hbefore, fun heq => hne (heq ▸ rfl), by rwa [List.append_assoc]⟩
    · rwa [mergeAt_over_not_mapping hbase]
    · rwa [mergeAt_of_not_mapping hlayer]

/-- The layer wins with what is no mapping. -/
theorem find?_mergeAt_of_leaf (hw : layer.WellKeyed) (hv : v.isMapping = false) (h : layer.find? q = some v) :
    (mergeAt policy path base layer).find? q = some v := find?_mergeAt_of_whole hw (.inl hv) h

/-- Where the layer holds nothing and the chain of keys is cut off, nothing is left of the base. -/
theorem find?_mergeAt_of_cutOff (hw : layer.WellKeyed) (hnone : layer.find? q = none)
    (h : CutOff policy path base layer q) : (mergeAt policy path base layer).find? q = none := by
  obtain ⟨node, key, rest, bs, ls, rfl, hmerged, hreplaced, hcut⟩ := h
  have hls : ls.find? (key :: rest) = none := by
    rw [find?_append, hmerged.layer] at hnone
    exact hnone
  rw [Mapping.find?_cons_eq] at hls
  rw [find?_append, hmerged.find?_mergeAt hw]
  show (mergeAt policy (path ++ node) (.mapping bs) (.mapping ls)).find? (key :: rest) = none
  rw [find?_mergeAt_replaced (hw.find? hmerged.layer).1 hreplaced]
  rcases hcut with hhas | hdrops
  · cases hv : Entries.get? ls key with
    | none => exact absurd hhas (Entries.get?_eq_none_iff.mp hv)
    | some v => rwa [hv] at hls
  · rw [Entries.get?_eq_none_iff.mpr hdrops.1, if_pos hdrops]
    rfl

/-- Where the layer is silent and the chain of keys is not cut off, the base decides. -/
theorem find?_mergeAt_of_not_cutOff (hw : layer.WellKeyed) (h : layer.Silent q)
    (hcut : ¬ CutOff policy path base layer q) : (mergeAt policy path base layer).find? q = base.find? q := by
  induction q generalizing path base layer with
  | nil => exact h.elim
  | cons key q ih =>
    have hfind := h.find?
    obtain ⟨hmapping, hbelow⟩ := h
    rcases mappings_or_not base layer with ⟨bs, ls, rfl, rfl⟩ | hbase | hlayer
    · cases hr : policy.replaces path with
      | true =>
        -- The chain would be cut off right here.
        have hhere : key ∉ Entries.keys ls ∧ ¬ policy.Drops ls key := not_or.mp fun hkey =>
          hcut ⟨[], key, q, bs, ls, rfl, .nil policy path bs ls, by rwa [List.append_nil], hkey⟩
        rw [find?_mergeAt_replaced hw.1 hr, Entries.get?_eq_none_iff.mpr hhere.1, if_neg hhere.2, Option.none_or]
        rfl
      | false =>
        cases hnew : Entries.get? ls key with
        | none => exact find?_mergeAt_of_none hr hnew
        | some new =>
          have hsilent := hbelow new hnew
          rw [find?_mergeAt_of_some hw.1 hr hnew, find?_mapping]
          cases hold : Entries.get? bs key with
          | none => exact hsilent.find?
          | some old => exact ih (hw.get? hnew) hsilent fun h => hcut (h.cons hold hnew hr)
    · rw [mergeAt_over_not_mapping hbase, hfind]
      cases base with
      | mapping bs => cases hbase
      | _ => rfl
    · rw [hmapping] at hlayer
      cases hlayer

/-- Where the layer is silent the base decides, outside of replace nodes. -/
theorem find?_mergeAt_of_silent (hw : layer.WellKeyed) (h : layer.Silent q)
    (hr : ∀ front, front <+: q → front ≠ q → policy.replaces (path ++ front) = false) :
    (mergeAt policy path base layer).find? q = base.find? q := by
  refine find?_mergeAt_of_not_cutOff hw h ?_
  rintro ⟨node, key, rest, -, -, rfl, -, hreplaced, -⟩
  rw [hr node (List.prefix_append node _) (by simp)] at hreplaced
  cases hreplaced

end Places

end Value

/-! ### The policy of environments -/

theorem MergePolicy.cascade_replaces_iff {path : List String} :
    cascade.replaces path = true ↔ ∃ type, path = ["files", type] := by
  constructor
  · intro h
    match path, h with
    | [a, b], h =>
      obtain rfl : "files" = a := by simpa [replaces, cascade, fits] using h
      exact ⟨b, rfl⟩
    | [], h => cases h
    | [a], h => simp [replaces, cascade, fits] at h
    | a :: b :: c :: rest, h => simp [replaces, cascade, fits] at h
  · rintro ⟨type, rfl⟩
    simp [replaces, cascade, fits]

namespace Value

section Sections
variable {base layer : Value} {type : String} {bs ls : Mapping} {q : List String}

/-- Under the policy of environments the sections of `files` are merged, each as a replace node. -/
theorem mergedAt_section (hbase : base.find? ["files", type] = some (.mapping bs))
    (hlayer : layer.find? ["files", type] = some (.mapping ls)) :
    MergedAt .cascade [] base layer ["files", type] bs ls := by
  refine ⟨hbase, hlayer, fun front hfront hne => Bool.eq_false_iff.mpr fun hr => ?_⟩
  obtain ⟨other, rfl⟩ := MergePolicy.cascade_replaces_iff.mp hr
  exact hne (hfront.eq_of_length rfl)

/-- A chain of keys is cut off just below those sections. -/
theorem cutOff_cascade_iff : CutOff .cascade [] base layer q ↔
    ∃ type key rest bs ls, q = "files" :: type :: key :: rest ∧ base.find? ["files", type] = some (.mapping bs) ∧
      layer.find? ["files", type] = some (.mapping ls) ∧ (key ∈ Entries.keys ls ∨ MergePolicy.cascade.Drops ls key) := by
  constructor
  · rintro ⟨node, key, rest, bs, ls, rfl, ⟨hbase, hlayer, -⟩, hreplaced, hcut⟩
    obtain ⟨type, rfl⟩ := MergePolicy.cascade_replaces_iff.mp hreplaced
    exact ⟨type, key, rest, bs, ls, rfl, hbase, hlayer, hcut⟩
  · rintro ⟨type, key, rest, bs, ls, rfl, hbase, hlayer, hcut⟩
    exact ⟨["files", type], key, rest, bs, ls, rfl, mergedAt_section hbase hlayer,
      MergePolicy.cascade_replaces_iff.mpr ⟨type, rfl⟩, hcut⟩

end Sections

/-! ### Value by value -/

/-- A merge, value by value. What the layer holds and is no mapping stands in the merged tree. Where the layer holds
    nothing, and nothing on the way that is no mapping, the base decides, unless the chain of keys is cut off at a
    replace node: then nothing stands there. -/
theorem merge_value_by_value (policy : MergePolicy) (base layer : Value) (q : List String) (hw : layer.WellKeyed) :
    (∀ v, layer.find? q = some v → v.isMapping = false → (merge policy base layer).find? q = some v) ∧
    (layer.find? q = none → (∀ front, front <+: q → ∀ u, layer.find? front = some u → u.isMapping = true) →
      (CutOff policy [] base layer q → (merge policy base layer).find? q = none) ∧
      (¬ CutOff policy [] base layer q → (merge policy base layer).find? q = base.find? q)) :=
  ⟨fun _ hv hleaf => find?_mergeAt_of_leaf hw hleaf hv, fun hnone hmappings =>
    ⟨find?_mergeAt_of_cutOff hw hnone, find?_mergeAt_of_not_cutOff hw (silent_iff.mpr ⟨hnone, hmappings⟩)⟩⟩

/-- Scripts that are joined into one bundle and entered at another, with helpers. -/
def enteredScripts : Value :=
  .mapping [("files", .mapping [("javascripts", .mapping [("joinTo", .mapping [("old.js", .string "old/**")]),
    ("entryPoints", .mapping [("app/main.js", .string "main.js")]), ("pluginHelpers", .string "main.js")])])]

/-- A layer that joins the scripts anew. -/
def joinedScripts : Value :=
  .mapping [("files", .mapping [("javascripts", .mapping [("joinTo", .mapping [("all.js", .string "app/**")])])])]

/-- Joining anew leaves neither the old bundle nor the entry point, and keeps the helpers. -/
theorem merge_value_by_value_joinedScripts :
    joinedScripts.WellKeyed ∧
    (merge .cascade enteredScripts joinedScripts).find? ["files", "javascripts", "joinTo", "all.js"] =
      some (.string "app/**") ∧
    (merge .cascade enteredScripts joinedScripts).find? ["files", "javascripts", "joinTo", "old.js"] = none ∧
    (merge .cascade enteredScripts joinedScripts).find? ["files", "javascripts", "entryPoints", "app/main.js"] = none ∧
    (merge .cascade enteredScripts joinedScripts).find? ["files", "javascripts", "pluginHelpers"] =
      some (.string "main.js") := by
  have hw : joinedScripts.WellKeyed := by decide
  have hold : joinedScripts.Silent ["files", "javascripts", "joinTo", "old.js"] := by decide
  have hentry : joinedScripts.Silent ["files", "javascripts", "entryPoints", "app/main.js"] := by decide
  have hhelpers : joinedScripts.Silent ["files", "javascripts", "pluginHelpers"] := by decide
  refine ⟨hw, (merge_value_by_value .cascade enteredScripts _ _ hw).1 _ rfl rfl, ?_, ?_, ?_⟩
  · exact ((merge_value_by_value .cascade enteredScripts _ _ hw).2 hold.find? (silent_iff.mp hold).2).1
      (cutOff_cascade_iff.mpr ⟨"javascripts", "joinTo", ["old.js"], _, _, rfl, rfl, rfl, .inl (by decide)⟩)
  · exact ((merge_value_by_value .cascade enteredScripts _ _ hw).2 hentry.find? (silent_iff.mp hentry).2).1
      (cutOff_cascade_iff.mpr ⟨"javascripts", "entryPoints", ["app/main.js"], _, _, rfl, rfl, rfl, .inr (by decide)⟩)
  · refine ((merge_value_by_value .cascade enteredScripts _ _ hw).2 hhelpers.find? (silent_iff.mp hhelpers).2).2 ?_
    intro h
    obtain ⟨type, key, rest, bs, ls, hq, -, hlayer, hcut⟩ := cutOff_cascade_iff.mp h
    cases hq
    cases hlayer
    exact absurd hcut (by decide)

end Value

namespace Mapping
variable {base layer : Mapping} {q : List String} {key : String} {v : Value}

theorem merge_cascade_eq (base layer : Mapping) :
    Mapping.merge .cascade base layer = Value.mergeEntries .cascade [] base layer := if_neg (by decide)

theorem merge_nil (base : Mapping) : Mapping.merge .cascade base [] = base := merge_cascade_eq base []

theorem get?_merge_of_none (h : Entries.get? layer key = none) :
    Entries.get? (Mapping.merge .cascade base layer) key = Entries.get? base key := by
  rw [merge_cascade_eq]
  exact Value.get?_mergeEntries_of_none h

theorem get?_merge_of_some (hw : Entries.WellKeyed layer) (h : Entries.get? layer key = some v) :
    Entries.get? (Mapping.merge .cascade base layer) key =
      some (Value.mergeOver .cascade [key] (Entries.get? base key) v) := by
  rw [merge_cascade_eq]
  exact Value.get?_mergeEntries_of_some hw h

theorem wellKeyed_merge (hb : (Value.mapping base).WellKeyed) (hl : (Value.mapping layer).WellKeyed) :
    (Value.mapping (Mapping.merge .cascade base layer)).WellKeyed := by
  rw [merge_cascade_eq]
  exact Value.wellKeyed_mergeEntries hb hl.2

theorem find?_merge_of_leaf (hw : (Value.mapping layer).WellKeyed) (hv : v.isMapping = false)
    (h : layer.find? q = some v) : (Mapping.merge .cascade base layer).find? q = some v := by
  unfold find?
  rw [← Value.merge_mapping]
  exact Value.find?_mergeAt_of_leaf hw hv h

/-- What a layer sets in a section of `files` is taken whole. -/
theorem find?_merge_of_files {type setting : String} (hw : (Value.mapping layer).WellKeyed)
    (h : layer.find? ["files", type, setting] = some v) :
    (Mapping.merge .cascade base layer).find? ["files", type, setting] = some v := by
  unfold find?
  rw [← Value.merge_mapping]
  refine Value.find?_mergeAt_of_whole hw (.inr ⟨["files", type], ⟨[setting], rfl⟩, by simp, ?_⟩) h
  exact MergePolicy.cascade_replaces_iff.mpr ⟨type, rfl⟩

theorem find?_merge_of_silent (hw : (Value.mapping layer).WellKeyed) (hq : q.head? ≠ some "files")
    (h : (Value.mapping layer).Silent q) : (Mapping.merge .cascade base layer).find? q = base.find? q := by
  unfold find?
  rw [← Value.merge_mapping]
  refine Value.find?_mergeAt_of_silent hw h fun front hfront _ => ?_
  rw [Bool.eq_false_iff]
  intro hr
  obtain ⟨type, rfl⟩ := MergePolicy.cascade_replaces_iff.mp hr
  obtain ⟨rest, rfl⟩ := hfront
  exact hq rfl

end Mapping
end AssetPlan
