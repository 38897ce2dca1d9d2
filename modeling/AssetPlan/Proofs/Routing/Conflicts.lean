import AssetPlan.Proofs.Routing.FirstDeclared

/-! # The conflicts of a `files` section

Compiling reports a conflict for every declaration that is dropped or ignored, and no other. Which are dropped is
seen in the finished table: no two declarations put one output at one place, so a declaration is dropped exactly if
the table does not give its output there, and this is so if the output was declared before. -/

namespace AssetPlan

/-! ### Places of declarations -/

/-- Lists that are told apart by a tag can be put side by side. -/
theorem nodup_flatMap_of_tag {α β κ : Type} (tag : β → κ) (key : α → κ) {f : α → List β} {as : List α}
    (hkeys : (as.map key).Nodup) (htag : ∀ a ∈ as, ∀ b ∈ f a, tag b = key a) (hf : ∀ a ∈ as, (f a).Nodup) :
    (as.flatMap f).Nodup := by
  induction as with
  | nil => exact List.nodup_nil
  | cons a rest ih =>
    obtain ⟨hkey, hrest⟩ := List.nodup_cons.mp hkeys
    have hbehind := ih hrest (fun a' ha' => htag a' (List.mem_cons_of_mem _ ha'))
      fun a' ha' => hf a' (List.mem_cons_of_mem _ ha')
    rw [List.flatMap_cons]
    refine List.nodup_append.mpr ⟨hf a List.mem_cons_self, hbehind, ?_⟩
    rintro b hb _ hb' rfl
    obtain ⟨a', ha', hb'⟩ := List.mem_flatMap.mp hb'
    have heq := (htag a List.mem_cons_self b hb).symm.trans (htag a' (List.mem_cons_of_mem _ ha') b hb')
    exact hkey (List.mem_map.mpr ⟨a', ha', heq.symm⟩)

namespace Declaration
variable {ds : List Declaration} {type : AssetType} {entry : String} {v : Value} {files : Mapping}

/-- The output of a declaration with the place where it is put. -/
def slot (d : Declaration) : AssetType × String × String := (d.type, d.entry, d.output)

/-- At one place the outputs tell the declarations apart. -/
theorem nodup_slots_iff (hplace : ∀ d ∈ ds, d.type = type ∧ d.entry = entry) :
    (ds.map slot).Nodup ↔ (ds.map output).Nodup := by
  have hslots : ds.map slot = (ds.map output).map fun o => (type, entry, o) := by
    rw [List.map_map]
    refine List.map_congr_left fun d hd => ?_
    obtain ⟨rfl, rfl⟩ := hplace d hd
    rfl
  rw [hslots]
  exact ⟨List.Pairwise.of_map _ fun a b hne heq => hne (heq ▸ rfl),
    List.Pairwise.map _ fun a b hne heq => hne (congrArg (·.2.2) heq)⟩

theorem nodup_outputs_ofValue (hv : v.WellKeyed) : ((ofValue type entry v).map output).Nodup := by
  cases v with
  | mapping outputs =>
    rw [ofValue, List.map_map]
    exact hv.1
  | string o => simp [ofValue]
  | _ => exact List.nodup_nil

theorem nodup_slots_ofValue (hv : v.WellKeyed) : ((ofValue type entry v).map slot).Nodup :=
  (nodup_slots_iff fun _ hd => ofValue_place hd).mpr (nodup_outputs_ofValue hv)

theorem nodup_slots_joined (hv : v.WellKeyed) : ((joined type v).map slot).Nodup := by
  unfold joined
  cases hjoin : v.get? "joinTo" with
  | none => exact List.nodup_nil
  | some u =>
    refine nodup_slots_ofValue (hv.find? (q := ["joinTo"]) ?_)
    rw [Value.find?_cons, hjoin]
    rfl

theorem entered_place {d : Declaration} (h : d ∈ entered type v) : d.type = type ∧ d.entry ≠ defaultEntry := by
  unfold entered at h
  split at h
  · obtain ⟨e, he, hd⟩ := List.mem_flatMap.mp h
    obtain ⟨htype, hentry⟩ := ofValue_place hd
    have hne := (List.mem_filter.mp he).2
    rw [← hentry] at hne
    exact ⟨htype, of_decide_eq_true hne⟩
  · cases h

theorem nodup_slots_entered (hv : v.WellKeyed) : ((entered type v).map slot).Nodup := by
  unfold entered
  split
  · cases hentries : (v.get? "entryPoints").bind Value.mapping? with
    | none => exact List.nodup_nil
    | some es =>
      have hes : (Value.mapping es).WellKeyed := by
        obtain ⟨u, hu, hes⟩ := Option.bind_eq_some_iff.mp hentries
        cases u with
        | mapping es' =>
          cases hes
          refine hv.find? (q := ["entryPoints"]) ?_
          rw [Value.find?_cons, hu]
          rfl
        | _ => cases hes
      rw [List.map_flatMap]
      refine nodup_flatMap_of_tag (fun s => s.2.1) Prod.fst
        (List.Nodup.sublist (List.filter_sublist.map _) hes.1) (fun e _ s hs => ?_) fun e he => ?_
      · obtain ⟨d, hd, rfl⟩ := List.mem_map.mp hs
        exact (ofValue_place hd).2
      · exact nodup_slots_ofValue (Value.wellKeyed_of_mem hes.2 (List.mem_filter.mp he).1)
  · exact List.nodup_nil

theorem ofSections_place {declares : AssetType → Value → List Declaration} {d : Declaration}
    (h : d ∈ ofSections declares files) : ∃ s ∈ files, ∃ type, AssetType.ofName? s.1 = some type ∧ d ∈ declares type s.2 := by
  obtain ⟨s, hs, hd⟩ := List.mem_flatMap.mp h
  cases htype : AssetType.ofName? s.1 with
  | none =>
    rw [htype] at hd
    cases hd
  | some type =>
    rw [htype] at hd
    exact ⟨s, hs, type, htype, hd⟩

theorem nodup_slots_ofSections {declares : AssetType → Value → List Declaration} (hw : (Value.mapping files).WellKeyed)
    (htype : ∀ {type v d}, d ∈ declares type v → d.type = type)
    (heach : ∀ {type v}, v.WellKeyed → ((declares type v).map slot).Nodup) :
    ((ofSections declares files).map slot).Nodup := by
  unfold ofSections
  rw [List.map_flatMap]
  refine nodup_flatMap_of_tag (fun s => s.1.name) Prod.fst hw.1 (fun s _ p hp => ?_) fun s hs => ?_
  · obtain ⟨d, hd, rfl⟩ := List.mem_map.mp hp
    cases hname : AssetType.ofName? s.1 with
    | none =>
      rw [hname] at hd
      cases hd
    | some type =>
      rw [hname] at hd
      rw [← AssetType.name_of_ofName? hname]
      exact congrArg AssetType.name (htype hd)
  · cases AssetType.ofName? s.1 with
    | none => exact List.nodup_nil
    | some type => exact heach (Value.wellKeyed_of_mem hw.2 hs)

/-- No two declarations put one output at one place. -/
theorem nodup_slots_ofFiles (hw : (Value.mapping files).WellKeyed) : ((ofFiles files).map slot).Nodup := by
  unfold ofFiles
  rw [List.map_append]
  refine List.nodup_append.mpr ⟨nodup_slots_ofSections hw (fun h => (Routing.joined_place h).1) nodup_slots_joined,
    nodup_slots_ofSections hw (fun h => (entered_place h).1) nodup_slots_entered, ?_⟩
  -- Joined outputs are all under one entry, and no entry point has its name.
  rintro _ hs _ hs' rfl
  obtain ⟨d, hd, rfl⟩ := List.mem_map.mp hs
  obtain ⟨d', hd', hslot⟩ := List.mem_map.mp hs'
  obtain ⟨_, -, _, -, hd⟩ := ofSections_place hd
  obtain ⟨_, -, _, -, hd'⟩ := ofSections_place hd'
  have hentry : d'.entry = d.entry := congrArg (·.2.1) hslot
  exact (entered_place hd').2 (hentry.trans (Routing.joined_place hd).2)

end Declaration

/-- Claiming outputs that are told apart drops those that are taken already. -/
theorem Bundles.claim_snd {claimed : List String} {bundles : Bundles} (hb : Entries.WellKeyed bundles) :
    (Bundles.claim claimed bundles).2 = (Entries.keys bundles).filter (· ∈ claimed) := by
  induction bundles generalizing claimed with
  | nil => rfl
  | cons b rest ih =>
    obtain ⟨output, matcher⟩ := b
    obtain ⟨houtput, hrest⟩ := List.nodup_cons.mp hb
    rw [Bundles.claim]
    by_cases h : output ∈ claimed
    · rw [if_pos (List.contains_iff_mem.mpr h)]
      show output :: (Bundles.claim claimed rest).2 = _
      rw [ih hrest]
      simp [Entries.keys, h]
    · rw [if_neg (by simpa using h)]
      show (Bundles.claim (claimed ++ [output]) rest).2 = _
      rw [ih hrest]
      show _ = ((output, matcher) :: rest |>.map Prod.fst).filter (· ∈ claimed)
      rw [List.map_cons, List.filter_cons, if_neg (by simpa using h)]
      refine List.filter_congr fun o ho => ?_
      have hne : o ≠ output := fun heq => houtput (heq ▸ ho)
      simp [hne]

namespace Routing
open Declaration
variable {r r' final : Routing} {type : AssetType} {fields files : Mapping} {watched : List String}
  {done ds later : List Declaration} {d : Declaration} {entry : String} {bundles : Bundles}

/-! ### What is reported -/

/-- Whether the table gives the output of a declaration at its place. -/
def gives (r : Routing) (d : Declaration) : Bool := Entries.has ((r.entryBundles? d.type d.entry).getD []) d.output

/-- The declarations whose outputs did not get into the table at their places. -/
def dropped (r : Routing) (ds : List Declaration) : List Declaration := ds.filter fun d => ! r.gives d

/-- An entry point lies in a watched directory. Slashes at the end of the directory do not count. -/
def InWatched (watched : List String) (entry : String) : Prop :=
  ∃ directory ∈ watched, ∃ rest, entry.toList = Text.dropEndWhile (· == '/') directory.toList ++ '/' :: rest

theorem any_liesIn_iff : watched.any (liesIn · entry) = true ↔ InWatched watched entry := by
  rw [List.any_eq_true]
  refine exists_congr fun directory => and_congr_right fun _ => ?_
  unfold liesIn
  rw [List.isPrefixOf_iff_prefix]
  refine exists_congr fun rest => ?_
  rw [List.append_assoc, List.singleton_append, eq_comm]

instance : Decidable (InWatched watched entry) := decidable_of_iff _ any_liesIn_iff

/-- The conflicts of a section in the first pass: that it is for no asset type, or the joined outputs that are
    dropped. -/
def joinConflicts (r : Routing) (s : String × Value) : List Conflict :=
  match AssetType.ofName? s.1 with
  | none => [.unknownType s.1]
  | some type => (r.dropped (joined type s.2)).map fun d => .outputClaimed type d.output

/-- The conflict of an output of an entry point that is dropped: whether it is a joined output of its asset type. -/
def droppedConflict (r : Routing) (d : Declaration) : Conflict :=
  if d.output ∈ Entries.keys ((r.defaultBundles? d.type).getD []) then .outputJoined d.type d.entry d.output
  else .outputUsed d.type d.entry d.output

/-- The conflicts of one entry point. -/
def entryConflicts (watched : List String) (r : Routing) (type : AssetType) (e : String × Value) : List Conflict :=
  if e.1 = defaultEntry then [.reservedEntry type]
  else (if InWatched watched e.1 then [] else [.unwatchedEntry e.1]) ++
    (r.dropped (ofValue type e.1 e.2)).map r.droppedConflict

/-- The conflicts of a section in the second pass. -/
def entryPointConflicts (watched : List String) (r : Routing) (s : AssetType × Mapping) : List Conflict :=
  match setting? s.2 "entryPoints" with
  | none => []
  | some v =>
    if s.1.hasEntryPoints then (v.mapping?.getD []).flatMap (entryConflicts watched r s.1)
    else [.entryPointsUnsupported s.1]

/-- The conflicts of a `files` section. -/
def conflicts (watched : List String) (r : Routing) (files : Mapping) : List Conflict :=
  files.flatMap r.joinConflicts ++ (sections files).flatMap (r.entryPointConflicts watched)

/-! ### Dropped declarations in the finished table -/

theorem gives_iff (hr : r.Holds ds) : r.gives d = true ↔ d.slot ∈ ds.map slot := by
  unfold gives
  rw [Entries.has_iff_mem_keys, keys_of_shown (hr.bundles d.type d.entry)]
  simp only [List.mem_map, List.mem_filter, decide_eq_true_eq, slot, Prod.mk.injEq]
  exact exists_congr fun d' => by simp only [and_assoc]

theorem nodup_outputs (hslots : ((done ++ ds ++ later).map slot).Nodup)
    (hplace : ∀ d ∈ ds, d.type = type ∧ d.entry = entry) : (ds.map output).Nodup := by
  have hsub : ds.Sublist (done ++ ds ++ later) := (List.sublist_append_right done ds).trans (List.sublist_append_left _ later)
  exact (nodup_slots_iff hplace).mp (hslots.sublist (hsub.map slot))

/-- A table that was made from all declarations drops the outputs that were declared before. -/
theorem dropped_eq (hr : r.Holds (firsts (done ++ ds ++ later))) (hslots : ((done ++ ds ++ later).map slot).Nodup)
    (hplace : ∀ d ∈ ds, d.type = type ∧ d.entry = entry) : r.dropped ds = ds.filter (·.output ∈ done.map output) := by
  have hds := nodup_outputs hslots hplace
  have hfirsts : firsts (done ++ ds ++ later) = firsts done ++ ds.filter (·.output ∉ done.map output) ++
      (firsts later).filter (·.output ∉ (done ++ ds).map output) := by
    unfold firsts
    rw [firstsBy_append, firstsBy_append, firstsBy_of_nodup hds]
  rw [List.map_append, List.map_append] at hslots
  obtain ⟨hbefore, -, hafter⟩ := List.nodup_append.mp hslots
  obtain ⟨-, -, hbefore⟩ := List.nodup_append.mp hbefore
  refine List.filter_congr fun d hd => ?_
  have hslot : d.slot ∈ ds.map slot := List.mem_map_of_mem hd
  -- The firsts are those of before, of this batch and of later; the place of `d` is only in the batch.
  have hgiven : r.gives d = true ↔ d.output ∉ done.map output := by
    rw [gives_iff hr, hfirsts, List.map_append, List.map_append, List.mem_append, List.mem_append]
    constructor
    · rintro ((hdone | hhere) | hlater)
      · exact absurd rfl (hbefore _ (((firstsBy_sublist done).map slot).subset hdone) _ hslot)
      · obtain ⟨d', hd', heq⟩ := List.mem_map.mp hhere
        have houtput : d'.output = d.output := congrArg (·.2.2) heq
        rw [← houtput]
        exact of_decide_eq_true (List.mem_filter.mp hd').2
      · obtain ⟨d', hd', heq⟩ := List.mem_map.mp hlater
        have hbehind : d' ∈ later := (firstsBy_sublist later).subset (List.mem_filter.mp hd').1
        exact absurd heq.symm (hafter _ (List.mem_append_right _ hslot) _ (List.mem_map_of_mem hbehind))
    · intro hnew
      exact .inl (.inr (List.mem_map_of_mem (List.mem_filter.mpr ⟨hd, decide_eq_true hnew⟩)))
  cases hgives : r.gives d with
  | true => simpa using hgiven.mp hgives
  | false => simpa [hgives] using hgiven

/-! ### One batch of outputs -/

/-- The output paths that a table has claimed are those that were declared so far. -/
def Claims (r : Routing) (done : List Declaration) : Prop := ∀ output, output ∈ r.outputPaths ↔ output ∈ done.map Declaration.output

theorem Claims.extend (h : r.Claims done) (hb : bundles.map Bundles.shown = ds.map Declaration.shown)
    (hr' : r'.outputPaths = r.outputPaths ++ Entries.keys (bundles.claim r.outputPaths).1) : r'.Claims (done ++ ds) := by
  have hkept : ∀ output, output ∈ Entries.keys (bundles.claim r.outputPaths).1 ↔
      output ∈ ds.map Declaration.output ∧ output ∉ r.outputPaths := by
    intro output
    have hfirst : output ∈ bundles.map Prod.fst ↔ output ∈ (firstsBy Prod.fst bundles).map Prod.fst := mem_map_firstsBy.symm
    rw [← keys_of_shown hb, Bundles.claim_fst]
    unfold Entries.keys
    rw [hfirst]
    simp only [List.mem_map, List.mem_filter, decide_eq_true_eq]
    constructor
    · rintro ⟨b, ⟨hmem, hfree⟩, rfl⟩
      exact ⟨⟨b, hmem, rfl⟩, hfree⟩
    · rintro ⟨⟨b, hmem, rfl⟩, hfree⟩
      exact ⟨b, ⟨hmem, hfree⟩, rfl⟩
  intro output
  rw [hr', List.mem_append, hkept, List.map_append, List.mem_append, ← h output]
  by_cases hout : output ∈ r.outputPaths <;> simp [hout]

/-- What is dropped while the outputs are claimed is what the finished table drops. -/
theorem Claims.claim_snd (h : r.Claims done) (hb : bundles.map Bundles.shown = ds.map Declaration.shown)
    (hfinal : final.Holds (firsts (done ++ ds ++ later))) (hslots : ((done ++ ds ++ later).map slot).Nodup)
    (hplace : ∀ d ∈ ds, d.type = type ∧ d.entry = entry) :
    (bundles.claim r.outputPaths).2 = (final.dropped ds).map output := by
  have hkeys := keys_of_shown hb
  have hbundles : Entries.WellKeyed bundles := by
    rw [Entries.WellKeyed, hkeys]
    exact nodup_outputs hslots hplace
  rw [Bundles.claim_snd hbundles, hkeys, dropped_eq hfinal hslots hplace, List.filter_map]
  congr 1
  refine List.filter_congr fun d _ => ?_
  exact decide_eq_decide.mpr (h d.output)

/-! ### Joined outputs -/

theorem addJoins_conflicts (hc : r.Claims done) (hfinal : final.Holds (firsts (done ++ joined type (.mapping fields) ++ later)))
    (hslots : ((done ++ joined type (.mapping fields) ++ later).map slot).Nodup)
    (h : (r.addJoins type fields).result = .ok r') :
    r'.Claims (done ++ joined type (.mapping fields)) ∧ (r.addJoins type fields).diagnostics =
      ((final.dropped (joined type (.mapping fields))).map fun d => .outputClaimed type d.output).map .conflict := by
  obtain ⟨bundles, hb, h⟩ := Reported.result_bind_eq_ok.mp h
  obtain ⟨_, -, h⟩ := Reported.result_bind_eq_ok.mp h
  obtain ⟨names, hnames, h⟩ := Reported.result_bind_eq_ok.mp h
  cases h
  have hshown := shown_joinedBundles hb
  refine ⟨hc.extend hshown rfl, ?_⟩
  have hdrop := hc.claim_snd hshown hfinal hslots fun _ => joined_place
  calc (r.addJoins type fields).diagnostics
    _ = (bundles.claim r.outputPaths).2.map fun output => .conflict (.outputClaimed type output) := by
      rw [addJoins, Reported.diagnostics_bind hb]
      exact (congrArg _ (Reported.diagnostics_bind hnames _)).trans (List.append_nil _)
    _ = _ := by
      rw [hdrop, List.map_map, List.map_map]
      rfl

theorem addAllJoins_conflicts {made : Routing × List (AssetType × Mapping)} (hc : r.Claims done)
    (hfinal : final.Holds (firsts (done ++ ofSections joined files ++ later)))
    (hslots : ((done ++ ofSections joined files ++ later).map slot).Nodup)
    (h : (r.addAllJoins files).result = .ok made) :
    made.1.Claims (done ++ ofSections joined files) ∧
      (r.addAllJoins files).diagnostics = (files.flatMap final.joinConflicts).map .conflict := by
  induction files generalizing r done made with
  | nil =>
    cases h
    rw [ofSections, List.flatMap_nil, List.append_nil]
    exact ⟨hc, rfl⟩
  | cons s rest ih =>
    obtain ⟨name, v⟩ := s
    have hcons : ofSections joined ((name, v) :: rest) =
        ((AssetType.ofName? name).map (joined · v)).getD [] ++ ofSections joined rest := List.flatMap_cons
    unfold addAllJoins at h ⊢
    rw [hcons] at hfinal hslots ⊢
    rw [List.flatMap_cons, List.map_append]
    cases ht : AssetType.ofName? name with
    | none =>
      rw [ht] at h hfinal hslots
      obtain ⟨_, -, h⟩ := Reported.result_bind_eq_ok.mp h
      obtain ⟨hclaims, hdiagnostics⟩ := ih hc hfinal hslots h
      refine ⟨hclaims, ?_⟩
      rw [Reported.bind_report, hdiagnostics]
      simp [joinConflicts, ht]
    | some type =>
      rw [ht] at h hfinal hslots
      cases v with
      | mapping fields =>
        obtain ⟨r₁, hr₁, h⟩ := Reported.result_bind_eq_ok.mp h
        obtain ⟨more, hmore, h⟩ := Reported.result_bind_eq_ok.mp h
        cases h
        rw [Option.map_some, Option.getD_some, ← List.append_assoc] at hfinal hslots
        have hfinal' := hfinal
        have hslots' := hslots
        rw [List.append_assoc _ _ later] at hfinal' hslots'
        obtain ⟨hclaims, hhere⟩ := addJoins_conflicts hc hfinal' hslots' hr₁
        obtain ⟨hclaims', hrest⟩ := ih hclaims hfinal hslots hmore
        rw [Option.map_some, Option.getD_some, ← List.append_assoc]
        refine ⟨hclaims', ?_⟩
        rw [Reported.diagnostics_bind hr₁, Reported.diagnostics_bind hmore, hhere, hrest]
        simp [joinConflicts, ht]
      | _ => cases h

/-! ### Entry points -/

theorem entryBundles?_withEntry_of_ne {entry' : String} (hne : entry ≠ entry') (type' : AssetType) (helpers : List String) :
    (r.withEntry type entry bundles helpers).entryBundles? type' entry' = r.entryBundles? type' entry' := by
  unfold entryBundles? withEntry entries? routesOf
  rw [Entries.get?_insert]
  split
  · rename_i htype
    obtain rfl := htype
    cases Entries.get? r.types type <;> cases bundles <;>
      simp [TypeRoutes.empty, Entries.get?_insert, hne]
  · rfl

theorem defaultBundles?_addEntryPoint {e : String × Value} (h : (addEntryPoint watched type r e).result = .ok r') :
    r'.defaultBundles? = r.defaultBundles? := by
  rcases addEntryPoint_eq_ok h with ⟨-, rfl⟩ | ⟨hne, _, bundles, -, rfl⟩
  · rfl
  · split
    · rfl
    · exact funext fun type' => entryBundles?_withEntry_of_ne hne type' _

/-- What every entry point leaves as it is, all of a section do. -/
theorem eq_of_addEntryPoints {γ : Type} {seen : Routing → γ} {s : AssetType × Mapping}
    (hseen : ∀ {r e r'}, (addEntryPoint watched s.1 r e).result = .ok r' → seen r' = seen r)
    (h : (addEntryPoints watched r s).result = .ok r') : seen r' = seen r := by
  unfold addEntryPoints at h
  split at h
  · cases h
    rfl
  · split at h
    · cases h
      rfl
    · split at h
      · exact Reported.eq_of_result_foldlM (f := addEntryPoint watched s.1) hseen h
      · cases h

theorem defaultBundles?_addEntryPoints {s : AssetType × Mapping} (h : (addEntryPoints watched r s).result = .ok r') :
    r'.defaultBundles? = r.defaultBundles? := eq_of_addEntryPoints defaultBundles?_addEntryPoint h

/-- While the entry points are added, the joined outputs are those of the finished table. -/
theorem entryConflict_eq (hdefault : r.defaultBundles? = final.defaultBundles?) (d : Declaration) :
    r.entryConflict d.type d.entry d.output = final.droppedConflict d := by
  unfold entryConflict droppedConflict
  rw [hdefault]
  simp only [Entries.has_iff_mem_keys]

theorem addEntryPoint_conflicts {e : String × Value} (hc : r.Claims done) (hdefault : r.defaultBundles? = final.defaultBundles?)
    (hfinal : final.Holds (firsts (done ++ (if e.1 ≠ defaultEntry then ofValue type e.1 e.2 else []) ++ later)))
    (hslots : ((done ++ (if e.1 ≠ defaultEntry then ofValue type e.1 e.2 else []) ++ later).map slot).Nodup)
    (h : (addEntryPoint watched type r e).result = .ok r') :
    r'.Claims (done ++ if e.1 ≠ defaultEntry then ofValue type e.1 e.2 else []) ∧
      (addEntryPoint watched type r e).diagnostics = (final.entryConflicts watched type e).map .conflict := by
  unfold addEntryPoint at h ⊢
  unfold entryConflicts
  by_cases he : e.1 = defaultEntry
  · rw [if_pos he] at h
    cases h
    rw [if_neg (not_not_intro he), List.append_nil, if_pos he, if_pos he]
    exact ⟨hc, rfl⟩
  · rw [if_pos he] at hfinal hslots ⊢
    rw [if_neg he] at h ⊢
    rw [if_neg he]
    obtain ⟨_, -, h⟩ := Reported.result_bind_eq_ok.mp h
    obtain ⟨bundles, hb, h⟩ := Reported.result_bind_eq_ok.mp h
    obtain ⟨_, -, h⟩ := Reported.result_bind_eq_ok.mp h
    cases h
    have hshown := shown_ofValue type e.1 hb
    have hdrop := hc.claim_snd hshown hfinal hslots fun _ => ofValue_place
    refine ⟨hc.extend hshown ?_, ?_⟩
    · split
      · rename_i hempty
        rw [List.isEmpty_iff.mp hempty]
        exact (List.append_nil _).symm
      · rfl
    -- What is dropped here is what the finished table drops, with the same choice of message.
    have hconflicts : (bundles.claim r.outputPaths).2.map (r.entryConflict type e.1) =
        (final.dropped (ofValue type e.1 e.2)).map final.droppedConflict := by
      rw [hdrop, List.map_map]
      refine List.map_congr_left fun d hd => ?_
      obtain ⟨rfl, hentry⟩ := ofValue_place (List.mem_filter.mp hd).1
      rw [← hentry]
      exact entryConflict_eq hdefault d
    rw [Reported.bind_report]
    dsimp only
    rw [Reported.diagnostics_bind hb, List.map_append, ← hconflicts, List.map_map]
    congr 1
    · by_cases hin : InWatched watched e.1
      · rw [if_pos hin, if_pos (any_liesIn_iff.mpr hin)]
        rfl
      · rw [if_neg hin, if_neg (mt any_liesIn_iff.mp hin)]
        rfl
    · exact List.append_nil _

theorem foldlM_addEntryPoint_conflicts {es : Mapping} (hc : r.Claims done) (hdefault : r.defaultBundles? = final.defaultBundles?)
    (hfinal : final.Holds (firsts (done ++
      (es.filter fun e => e.1 ≠ defaultEntry).flatMap (fun e => ofValue type e.1 e.2) ++ later)))
    (hslots : ((done ++
      (es.filter fun e => e.1 ≠ defaultEntry).flatMap (fun e => ofValue type e.1 e.2) ++ later).map slot).Nodup)
    (h : (es.foldlM (addEntryPoint watched type) r).result = .ok r') :
    r'.Claims (done ++ (es.filter fun e => e.1 ≠ defaultEntry).flatMap fun e => ofValue type e.1 e.2) ∧
      (es.foldlM (addEntryPoint watched type) r).diagnostics =
        (es.flatMap (final.entryConflicts watched type)).map .conflict := by
  induction es generalizing r done with
  | nil =>
    cases h
    rw [List.filter_nil, List.flatMap_nil, List.append_nil]
    exact ⟨hc, rfl⟩
  | cons e rest ih =>
    have hcons : ((e :: rest).filter fun e => e.1 ≠ defaultEntry).flatMap (fun e => ofValue type e.1 e.2) =
        (if e.1 ≠ defaultEntry then ofValue type e.1 e.2 else []) ++
          (rest.filter fun e => e.1 ≠ defaultEntry).flatMap fun e => ofValue type e.1 e.2 := by
      rw [List.filter_cons]
      by_cases he : e.1 = defaultEntry <;> simp [he]
    rw [hcons, ← List.append_assoc] at hfinal hslots ⊢
    obtain ⟨u, hu, h⟩ := Reported.result_foldlM_cons_eq_ok.mp h
    rw [List.append_assoc _ _ later] at hfinal hslots
    obtain ⟨hclaims, hhere⟩ := addEntryPoint_conflicts hc hdefault hfinal hslots hu
    rw [← List.append_assoc] at hfinal hslots
    obtain ⟨hclaims', hrest⟩ := ih hclaims ((defaultBundles?_addEntryPoint hu).trans hdefault) hfinal hslots h
    refine ⟨hclaims', ?_⟩
    rw [List.foldlM_cons, Reported.diagnostics_bind hu, hhere, hrest, List.flatMap_cons, List.map_append]

theorem entered_eq : entered type (.mapping fields) = if type.hasEntryPoints then
    ((((setting? fields "entryPoints").bind Value.mapping?).getD []).filter fun e => e.1 ≠ defaultEntry).flatMap
      fun e => ofValue type e.1 e.2 else [] := by
  have hnull : (setting? fields "entryPoints").bind Value.mapping? =
      (Entries.get? fields "entryPoints").bind Value.mapping? := by
    unfold setting?
    cases Entries.get? fields "entryPoints" with
    | none => rfl
    | some v => cases v <;> rfl
  rw [hnull]
  rfl

theorem addEntryPoints_conflicts (hc : r.Claims done) (hdefault : r.defaultBundles? = final.defaultBundles?)
    (hfinal : final.Holds (firsts (done ++ entered type (.mapping fields) ++ later)))
    (hslots : ((done ++ entered type (.mapping fields) ++ later).map slot).Nodup)
    (h : (addEntryPoints watched r (type, fields)).result = .ok r') :
    r'.Claims (done ++ entered type (.mapping fields)) ∧
      (addEntryPoints watched r (type, fields)).diagnostics = (final.entryPointConflicts watched (type, fields)).map .conflict := by
  rw [entered_eq] at hfinal hslots ⊢
  unfold addEntryPoints at h ⊢
  unfold entryPointConflicts
  dsimp only at h ⊢
  cases hv : setting? fields "entryPoints" with
  | none =>
    rw [hv] at h
    cases h
    simpa using hc
  | some v =>
    rw [hv] at h hfinal hslots
    cases htype : type.hasEntryPoints with
    | false =>
      simp only [htype, Bool.not_false, if_true] at h
      cases h
      exact ⟨by simpa using hc, rfl⟩
    | true =>
      simp only [htype, Bool.not_true, Bool.false_eq_true, if_false, if_true] at h hfinal hslots ⊢
      cases v with
      | mapping es => exact foldlM_addEntryPoint_conflicts hc hdefault hfinal hslots h
      | _ => cases h

theorem foldlM_addEntryPoints_conflicts {ss : List (AssetType × Mapping)} (hc : r.Claims done)
    (hdefault : r.defaultBundles? = final.defaultBundles?)
    (hfinal : final.Holds (firsts (done ++ ss.flatMap fun s => entered s.1 (.mapping s.2))))
    (hslots : ((done ++ ss.flatMap fun s => entered s.1 (.mapping s.2)).map slot).Nodup)
    (h : (ss.foldlM (addEntryPoints watched) r).result = .ok r') :
    (ss.foldlM (addEntryPoints watched) r).diagnostics = (ss.flatMap (final.entryPointConflicts watched)).map .conflict := by
  induction ss generalizing r done with
  | nil => rfl
  | cons s rest ih =>
    obtain ⟨u, hu, h⟩ := Reported.result_foldlM_cons_eq_ok.mp h
    rw [List.flatMap_cons, ← List.append_assoc] at hfinal hslots
    obtain ⟨hclaims, hhere⟩ := addEntryPoints_conflicts hc hdefault hfinal hslots hu
    rw [List.foldlM_cons, Reported.diagnostics_bind hu, hhere,
      ih hclaims ((defaultBundles?_addEntryPoints hu).trans hdefault) hfinal hslots h, List.flatMap_cons, List.map_append]

/-! ### Whole sections -/

end Routing
end AssetPlan
