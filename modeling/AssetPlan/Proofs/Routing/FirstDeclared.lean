import AssetPlan.Proofs.Routing.Claims

/-! # The first declaration of an output wins

Compiling goes over a `files` section twice, and each pass adds the declarations of one section after the
other: what the table holds grows from the firsts of those so far to the firsts of all. A section only
touches its own asset type, and an entry only its own place, so every entry is new when it is written. -/

namespace AssetPlan.Routing
open Declaration

/-! ### Joined outputs -/

/-- All entries of the table are those of joined routing. -/
def OnlyJoined (r : Routing) : Prop := ∀ type entry, entry ≠ defaultEntry → r.entryBundles? type entry = none

/-- The sections of asset types. -/
def sections (files : Mapping) : List (AssetType × Mapping) :=
  files.filterMap fun s => (AssetType.ofName? s.1).bind fun type => s.2.mapping?.map (type, ·)

theorem setting?_eq_some_iff {fields : Mapping} {key : String} {v : Value} :
    setting? fields key = some v ↔ Entries.get? fields key = some v ∧ v ≠ .null := by
  unfold setting?
  rw [Option.filter_eq_some_iff]
  cases v <;> simp [Value.isNull]

section Joins
variable {r r' : Routing} {type : AssetType} {fields : Mapping} {done : List Declaration}

theorem shown_joinedBundles {bundles : Bundles} (h : joinedBundles type fields = .ok bundles) :
    bundles.map Bundles.shown = (joined type (.mapping fields)).map Declaration.shown := by
  unfold joinedBundles setting? at h
  show _ = (((Entries.get? fields "joinTo").map (ofValue type defaultEntry)).getD []).map Declaration.shown
  cases hv : Entries.get? fields "joinTo" with
  | none =>
    rw [hv] at h
    cases h
    rfl
  | some v =>
    rw [hv] at h
    cases v with
    | null =>
      cases h
      rfl
    | _ => exact shown_ofValue type defaultEntry h

theorem joined_place {v : Value} {d : Declaration} (h : d ∈ joined type v) :
    d.type = type ∧ d.entry = defaultEntry := by
  unfold joined at h
  cases hv : v.get? "joinTo" with
  | none =>
    rw [hv] at h
    cases h
  | some v' =>
    rw [hv] at h
    exact ofValue_place h

theorem sections_cons_of_none {name : String} (v : Value) (rest : Mapping) (ht : AssetType.ofName? name = none) :
    sections ((name, v) :: rest) = sections rest := by simp [sections, ht]

theorem sections_cons_mapping {name : String} (fields rest : Mapping) (ht : AssetType.ofName? name = some type) :
    sections ((name, .mapping fields) :: rest) = (type, fields) :: sections rest := by
  simp [sections, ht, Value.mapping?]

/-- What the first section adds before those behind it: nothing if it is for no asset type, else its joined outputs. -/
theorem addAllJoins_cons_eq_ok {name : String} {v : Value} {rest : Mapping} {made : Routing × List (AssetType × Mapping)}
    (h : (r.addAllJoins ((name, v) :: rest)).result = .ok made) :
    (AssetType.ofName? name = none ∧ (r.addAllJoins rest).result = .ok made) ∨
      ∃ type fields r₁ more, AssetType.ofName? name = some type ∧ v = .mapping fields ∧
        (r.addJoins type fields).result = .ok r₁ ∧ (r₁.addAllJoins rest).result = .ok more ∧
        made = (more.1, (type, fields) :: more.2) := by
  unfold addAllJoins at h
  cases ht : AssetType.ofName? name with
  | none =>
    rw [ht] at h
    obtain ⟨_, -, h⟩ := Reported.result_bind_eq_ok.mp h
    exact .inl ⟨rfl, h⟩
  | some type =>
    rw [ht] at h
    cases v with
    | mapping fields =>
      obtain ⟨r₁, hr₁, h⟩ := Reported.result_bind_eq_ok.mp h
      obtain ⟨more, hmore, h⟩ := Reported.result_bind_eq_ok.mp h
      cases h
      exact .inr ⟨type, fields, r₁, more, rfl, rfl, hr₁, hmore, rfl⟩
    | _ => cases h

theorem sections_of_addAllJoins {files : Mapping} {joined : Routing × List (AssetType × Mapping)}
    (h : (r.addAllJoins files).result = .ok joined) : joined.2 = sections files := by
  induction files generalizing r joined with
  | nil =>
    cases h
    rfl
  | cons s rest ih =>
    obtain ⟨name, v⟩ := s
    rcases addAllJoins_cons_eq_ok h with ⟨ht, h⟩ | ⟨type, fields, r₁, more, ht, rfl, -, hmore, rfl⟩
    · rw [sections_cons_of_none v rest ht]
      exact ih h
    · rw [sections_cons_mapping fields rest ht, ← ih hmore]

theorem addJoins_eq_ok (h : (r.addJoins type fields).result = .ok r') :
    ∃ bundles names, joinedBundles type fields = .ok bundles ∧
      helpers type fields (bundles.claim r.outputPaths).1 = .ok names ∧
      r' = r.withEntry type defaultEntry (bundles.claim r.outputPaths).1 names := by
  obtain ⟨bundles, hb, h⟩ := Reported.result_bind_eq_ok.mp h
  obtain ⟨_, -, h⟩ := Reported.result_bind_eq_ok.mp h
  obtain ⟨names, hnames, h⟩ := Reported.result_bind_eq_ok.mp h
  cases h
  exact ⟨bundles, names, hb, hnames, rfl⟩

theorem get?_types_addJoins_of_ne {type' : AssetType} (hne : type ≠ type') (h : (r.addJoins type fields).result = .ok r') :
    Entries.get? r'.types type' = Entries.get? r.types type' := by
  obtain ⟨bundles, names, -, -, rfl⟩ := addJoins_eq_ok h
  exact Entries.get?_insert_of_ne hne _ _

/-- No two sections are for one asset type. -/
theorem type_ne_of_mem {name : String} {rest : Mapping} {s : String × Value} {type' : AssetType}
    (hname : Entries.get? rest name = none) (ht : AssetType.ofName? name = some type) (hs : s ∈ rest)
    (ht' : AssetType.ofName? s.1 = some type') : type ≠ type' := by
  rintro rfl
  have hsame := (AssetType.name_of_ofName? ht).symm.trans (AssetType.name_of_ofName? ht')
  exact Entries.get?_eq_none_iff.mp hname (List.mem_map.mpr ⟨s, hs, hsame.symm⟩)

/-- The asset types of the sections behind are still new when the joined outputs of a section are there. -/
theorem new_of_addJoins {name : String} {rest : Mapping} (hname : Entries.get? rest name = none)
    (ht : AssetType.ofName? name = some type)
    (hnew : ∀ s ∈ rest, ∀ type', AssetType.ofName? s.1 = some type' → Entries.get? r.types type' = none)
    (h : (r.addJoins type fields).result = .ok r') :
    ∀ s ∈ rest, ∀ type', AssetType.ofName? s.1 = some type' → Entries.get? r'.types type' = none := by
  intro s hs type' ht'
  rw [get?_types_addJoins_of_ne (type_ne_of_mem hname ht hs ht') h]
  exact hnew s hs type' ht'

theorem addJoins_holds (hr : r.Holds (firsts done)) (hj : r.OnlyJoined) (hnew : Entries.get? r.types type = none)
    (h : (r.addJoins type fields).result = .ok r') :
    r'.Holds (firsts (done ++ joined type (.mapping fields))) ∧ r'.OnlyJoined := by
  obtain ⟨bundles, names, hb, -, rfl⟩ := addJoins_eq_ok h
  have hentry : r.entryBundles? type defaultEntry = none := by
    unfold entryBundles? entries?
    rw [hnew]
    rfl
  refine ⟨hr.withEntry (shown_joinedBundles hb) (fun d hd => joined_place hd) hentry names, fun type' entry hne => ?_⟩
  rw [entryBundles?_eq, entries?_withEntry hentry]
  have hold := hj type' entry hne
  rw [entryBundles?_eq, Entries.get?_eq_none_iff] at hold
  rw [Entries.get?_eq_none_iff]
  unfold Entries.keys at hold ⊢
  rw [List.map_append, List.mem_append]
  rintro (hm | hm)
  · exact hold hm
  · split at hm
    · exact hne (List.mem_singleton.mp hm)
    · cases hm

theorem addAllJoins_holds {files : Mapping} (hw : Entries.WellKeyed files) {made : Routing × List (AssetType × Mapping)}
    (hr : r.Holds (firsts done)) (hj : r.OnlyJoined)
    (hnew : ∀ s ∈ files, ∀ type, AssetType.ofName? s.1 = some type → Entries.get? r.types type = none)
    (h : (r.addAllJoins files).result = .ok made) :
    made.1.Holds (firsts (done ++ ofSections joined files)) ∧ made.1.OnlyJoined := by
  induction files generalizing r done made with
  | nil =>
    cases h
    rw [ofSections, List.flatMap_nil, List.append_nil]
    exact ⟨hr, hj⟩
  | cons s rest ih =>
    obtain ⟨name, v⟩ := s
    obtain ⟨hname, hrest⟩ := Entries.wellKeyed_cons.mp hw
    obtain ⟨hhere, hbehind⟩ := List.forall_mem_cons.mp hnew
    unfold ofSections at ih ⊢
    rw [List.flatMap_cons, ← List.append_assoc]
    rcases addAllJoins_cons_eq_ok h with ⟨ht, h⟩ | ⟨type, fields, r₁, more, ht, rfl, hr₁, hmore, rfl⟩
    · rw [ht]
      show made.1.Holds (firsts (done ++ [] ++ _)) ∧ _
      rw [List.append_nil]
      exact ih hrest hr hj hbehind h
    · obtain ⟨hholds, honly⟩ := addJoins_holds hr hj (hhere type ht) hr₁
      have hmade := ih hrest hholds honly (new_of_addJoins hname ht hbehind hr₁) hmore
      rw [ht]
      exact hmade

end Joins

/-! ### Entry points -/

section EntryPoints
variable {r r' : Routing} {type : AssetType} {watched : List String} {done : List Declaration}

theorem addEntryPoint_eq_ok {e : String × Value} (h : (addEntryPoint watched type r e).result = .ok r') :
    (e.1 = defaultEntry ∧ r' = r) ∨ (e.1 ≠ defaultEntry ∧ ∃ key bundles, Bundles.ofValue key e.2 = .ok bundles ∧
      r' = if (bundles.claim r.outputPaths).1.isEmpty then r
        else r.withEntry type e.1 (bundles.claim r.outputPaths).1 (r.pluginHelpers type)) := by
  unfold addEntryPoint at h
  split at h
  · rename_i he
    cases h
    exact Or.inl ⟨he, rfl⟩
  · rename_i he
    obtain ⟨_, -, h⟩ := Reported.result_bind_eq_ok.mp h
    obtain ⟨bundles, hb, h⟩ := Reported.result_bind_eq_ok.mp h
    obtain ⟨_, -, h⟩ := Reported.result_bind_eq_ok.mp h
    cases h
    exact Or.inr ⟨he, _, bundles, hb, rfl⟩

/-- One entry point: its outputs are claimed, and no other place of the table changes. -/
theorem addEntryPoint_holds {e : String × Value} (hr : r.Holds (firsts done))
    (hnew : e.1 ≠ defaultEntry → r.entryBundles? type e.1 = none)
    (h : (addEntryPoint watched type r e).result = .ok r') :
    r'.Holds (firsts (done ++ if e.1 ≠ defaultEntry then ofValue type e.1 e.2 else [])) ∧
      ∀ type' entry, (type = type' → e.1 ≠ entry) → r'.entryBundles? type' entry = r.entryBundles? type' entry := by
  rcases addEntryPoint_eq_ok h with ⟨he, rfl⟩ | ⟨he, key, bundles, hb, rfl⟩
  · rw [if_neg (not_not_intro he), List.append_nil]
    exact ⟨hr, fun _ _ _ => rfl⟩
  · rw [if_pos he]
    -- The outputs are read before any of them is claimed; if all are taken, no entry is written.
    have hshown := shown_ofValue type e.1 hb
    split
    · rename_i hempty
      exact ⟨hr.claimed_nil hshown (List.isEmpty_iff.mp hempty), fun _ _ _ => rfl⟩
    · refine ⟨hr.withEntry hshown (fun d hd => ofValue_place hd) (hnew he) _, fun type' entry hne => ?_⟩
      rw [entryBundles?_eq, entryBundles?_eq, entries?_withEntry (hnew he)]
      split
      · rename_i ht
        rw [Entries.get?_append, Entries.get?_cons, if_neg (hne ht.1), Entries.get?_nil, Option.or_none]
      · rw [List.append_nil]

theorem foldlM_addEntryPoint_holds {es : Mapping} (hw : Entries.WellKeyed es) (hr : r.Holds (firsts done))
    (hnew : ∀ e ∈ es, e.1 ≠ defaultEntry → r.entryBundles? type e.1 = none)
    (h : (es.foldlM (addEntryPoint watched type) r).result = .ok r') :
    r'.Holds (firsts (done ++ (es.filter fun e => e.1 ≠ defaultEntry).flatMap fun e => ofValue type e.1 e.2)) ∧
      ∀ type' entry, type ≠ type' → r'.entryBundles? type' entry = r.entryBundles? type' entry := by
  induction es generalizing r done with
  | nil =>
    cases h
    rw [List.filter_nil, List.flatMap_nil, List.append_nil]
    exact ⟨hr, fun _ _ _ => rfl⟩
  | cons e rest ih =>
    obtain ⟨hname, hrest⟩ := Entries.wellKeyed_cons.mp hw
    obtain ⟨u, hu, h⟩ := Reported.result_foldlM_cons_eq_ok.mp h
    obtain ⟨hu1, hu2⟩ := addEntryPoint_holds hr (hnew e List.mem_cons_self) hu
    have hnewu : ∀ e' ∈ rest, e'.1 ≠ defaultEntry → u.entryBundles? type e'.1 = none := by
      intro e' he' hne
      have hkey : e.1 ≠ e'.1 := fun heq =>
        Entries.get?_eq_none_iff.mp hname (List.mem_map.mpr ⟨e', he', heq.symm⟩)
      rw [hu2 type e'.1 fun _ => hkey]
      exact hnew e' (List.mem_cons_of_mem _ he') hne
    obtain ⟨h1, h2⟩ := ih hrest hu1 hnewu h
    refine ⟨?_, fun type' entry ht => ?_⟩
    · rw [List.append_assoc] at h1
      rw [List.filter_cons]
      by_cases he : e.1 ≠ defaultEntry
      · rw [if_pos (decide_eq_true he), List.flatMap_cons]
        rw [if_pos he] at h1
        exact h1
      · rw [if_neg (by simpa using he)]
        rw [if_neg he] at h1
        exact h1
    · rw [h2 type' entry ht, hu2 type' entry fun ht' => absurd ht' ht]

/-- The entry points of one section, whose asset type had none so far. -/
theorem addEntryPoints_holds {fields : Mapping} (hw : (Value.mapping fields).WellKeyed) (hr : r.Holds (firsts done))
    (hnew : ∀ entry, entry ≠ defaultEntry → r.entryBundles? type entry = none)
    (h : (addEntryPoints watched r (type, fields)).result = .ok r') :
    r'.Holds (firsts (done ++ entered type (.mapping fields))) ∧
      ∀ type' entry, type ≠ type' → r'.entryBundles? type' entry = r.entryBundles? type' entry := by
  -- Most sections declare no entry points and leave the table as it is.
  have unchanged : entered type (.mapping fields) = [] → r' = r →
      r'.Holds (firsts (done ++ entered type (.mapping fields))) ∧
        ∀ type' entry, type ≠ type' → r'.entryBundles? type' entry = r.entryBundles? type' entry := by
    rintro hnil rfl
    rw [hnil, List.append_nil]
    exact ⟨hr, fun _ _ _ => rfl⟩
  have hentered : entered type (.mapping fields) = if type.hasEntryPoints then
      ((((Entries.get? fields "entryPoints").bind Value.mapping?).getD []).filter fun e => e.1 ≠ defaultEntry).flatMap
        fun e => ofValue type e.1 e.2 else [] := rfl
  unfold addEntryPoints setting? at h
  cases hv : Entries.get? fields "entryPoints" with
  | none =>
    rw [hv] at h hentered
    cases h
    exact unchanged (by rw [hentered]; exact ite_self []) rfl
  | some v =>
    rw [hv] at h hentered
    cases htype : type.hasEntryPoints with
    | false =>
      simp only [htype, Bool.not_false, if_true] at h
      refine unchanged (by rw [hentered, htype]; rfl) ?_
      cases v <;> cases h <;> rfl
    | true =>
      simp only [htype, Bool.not_true, Bool.false_eq_true, if_false] at h
      rw [htype, if_pos rfl] at hentered
      cases v with
      | null =>
        cases h
        exact unchanged hentered rfl
      | mapping es =>
        rw [hentered]
        exact foldlM_addEntryPoint_holds (hw.get? hv).1 hr (fun e _ he => hnew e.1 he) h
      | _ => cases h

theorem foldlM_addEntryPoints_holds {ss : List (AssetType × Mapping)} (htypes : (ss.map Prod.fst).Nodup)
    (hw : ∀ s ∈ ss, (Value.mapping s.2).WellKeyed) (hr : r.Holds (firsts done))
    (hnew : ∀ s ∈ ss, ∀ entry, entry ≠ defaultEntry → r.entryBundles? s.1 entry = none)
    (h : (ss.foldlM (addEntryPoints watched) r).result = .ok r') :
    r'.Holds (firsts (done ++ ss.flatMap fun s => entered s.1 (.mapping s.2))) := by
  induction ss generalizing r done with
  | nil =>
    cases h
    rw [List.flatMap_nil, List.append_nil]
    exact hr
  | cons s rest ih =>
    obtain ⟨htype, hrest⟩ := List.nodup_cons.mp htypes
    obtain ⟨u, hu, h⟩ := Reported.result_foldlM_cons_eq_ok.mp h
    obtain ⟨hu1, hu2⟩ := addEntryPoints_holds (hw s List.mem_cons_self) hr (hnew s List.mem_cons_self) hu
    rw [List.flatMap_cons, ← List.append_assoc]
    refine ih hrest (fun s' hs' => hw s' (List.mem_cons_of_mem _ hs')) hu1 (fun s' hs' entry hne => ?_) h
    have hother : s.1 ≠ s'.1 := fun heq => htype (List.mem_map.mpr ⟨s', hs', heq.symm⟩)
    rw [hu2 s'.1 entry hother]
    exact hnew s' (List.mem_cons_of_mem _ hs') entry hne

end EntryPoints

/-! ### Watched directories -/

/-- Watched directories decide on advice about entry points, and on nothing that is routed. -/
theorem result_addEntryPoint (watched watched' : List String) (type : AssetType) (r : Routing) (entry : String × Value) :
    (addEntryPoint watched type r entry).result = (addEntryPoint watched' type r entry).result := by
  unfold addEntryPoint
  split
  · rfl
  · rw [Reported.bind_report, Reported.bind_report]

theorem result_addEntryPoints (watched watched' : List String) (r : Routing) (declared : AssetType × Mapping) :
    (addEntryPoints watched r declared).result = (addEntryPoints watched' r declared).result := by
  unfold addEntryPoints
  split
  · rfl
  · split
    · rfl
    · split
      · exact Reported.result_foldlM_congr (result_addEntryPoint watched watched' declared.1) _ r
      · rfl

theorem result_ofFiles (files : Mapping) (watched watched' : List String) :
    (ofFiles files watched).result = (ofFiles files watched').result := by
  unfold ofFiles
  rw [Reported.result_bind, Reported.result_bind]
  exact congrArg _ (funext fun joined => Reported.result_foldlM_congr (result_addEntryPoints watched watched') _ _)

/-! ### Whole sections -/

theorem mem_sections {files : Mapping} {s : AssetType × Mapping} (h : s ∈ sections files) :
    (s.1.name, Value.mapping s.2) ∈ files := by
  obtain ⟨⟨name, v⟩, hm, h⟩ := List.mem_filterMap.mp h
  obtain ⟨type, ht, h⟩ := Option.bind_eq_some_iff.mp h
  obtain ⟨fields, hv, rfl⟩ := Option.map_eq_some_iff.mp h
  cases v with
  | mapping es =>
    cases hv
    show (type.name, Value.mapping fields) ∈ files
    rw [AssetType.name_of_ofName? ht]
    exact hm
  | _ => cases hv

theorem nodup_sections {files : Mapping} (hw : Entries.WellKeyed files) : ((sections files).map Prod.fst).Nodup := by
  induction files with
  | nil => exact List.nodup_nil
  | cons s rest ih =>
    obtain ⟨hname, hrest⟩ := Entries.wellKeyed_cons.mp hw
    unfold sections at ih ⊢
    rw [List.filterMap_cons]
    split
    · exact ih hrest
    · rename_i s' hs'
      refine List.nodup_cons.mpr ⟨fun hm => ?_, ih hrest⟩
      obtain ⟨t, ht, heq⟩ := List.mem_map.mp hm
      have hs : (s'.1.name, Value.mapping s'.2) ∈ [s] := mem_sections (by simp [sections, hs'])
      obtain rfl := List.mem_singleton.mp hs
      exact Entries.get?_eq_none_iff.mp hname (List.mem_map.mpr ⟨_, mem_sections ht, congrArg AssetType.name heq⟩)

/-- A section that is no mapping has no entry points. -/
theorem flatMap_sections (files : Mapping) :
    (sections files).flatMap (fun s => entered s.1 (.mapping s.2)) = ofSections entered files := by
  induction files with
  | nil => rfl
  | cons s rest ih =>
    obtain ⟨name, v⟩ := s
    unfold sections ofSections at ih ⊢
    rw [List.filterMap_cons, List.flatMap_cons, ← ih]
    cases AssetType.ofName? name with
    | none => rfl
    | some type =>
      cases v with
      | mapping fields => rfl
      | _ => simp [Value.mapping?, entered, Value.get?]

theorem holds_empty : empty.Holds (firsts []) :=
  ⟨rfl, fun _ => rfl, List.nodup_nil, fun _ => List.nodup_nil, fun _ _ h => by cases h⟩

theorem ofFiles_holds {files : Mapping} (hw : (Value.mapping files).WellKeyed) {watched : List String} {r : Routing}
    (h : (Routing.ofFiles files watched).result = .ok r) : r.Holds (firsts (Declaration.ofFiles files)) := by
  obtain ⟨⟨r₁, ss⟩, h₁, h⟩ := Reported.result_bind_eq_ok.mp h
  obtain ⟨hr, hj⟩ := addAllJoins_holds hw.1 holds_empty (fun _ _ _ => rfl) (fun _ _ _ _ => rfl) h₁
  obtain rfl := sections_of_addAllJoins h₁
  have wellKeyed : ∀ s ∈ sections files, (Value.mapping s.2).WellKeyed :=
    fun s hs => Value.wellKeyed_of_mem hw.2 (mem_sections hs)
  have hr' := foldlM_addEntryPoints_holds (nodup_sections hw.1) wellKeyed hr (fun s _ => hj s.1) h
  rw [flatMap_sections] at hr'
  exact hr'

/-- Compiling a `files` section routes the first declaration of every output path and nothing else. The
    output paths are those of the firsts in their order, so none occurs twice, and under every asset type and
    entry stand the bundles of its firsts, with the matchers of their own patterns; without one there is no
    entry. -/
theorem ofFiles_routes_firsts {files : Mapping} {watched : List String} {r : Routing}
    (hw : (Value.mapping files).WellKeyed) (h : (Routing.ofFiles files watched).result = .ok r) :
    r.Holds (firsts (Declaration.ofFiles files)) ∧ r.outputPaths.Nodup ∧
      ∀ type entry, ((r.entryBundles? type entry).getD []).map Bundles.shown =
          ((firsts (Declaration.ofFiles files)).filter fun d => d.type = type ∧ d.entry = entry).map
            Declaration.shown ∧
        ∀ bundles, r.entryBundles? type entry = some bundles → bundles ≠ [] := by
  have hr := ofFiles_holds hw h
  refine ⟨hr, ?_, fun type entry => ⟨hr.bundles type entry, fun bundles hb => ?_⟩⟩
  · rw [hr.outputPaths]
    exact nodup_map_firstsBy _
  · rw [entryBundles?_eq] at hb
    exact hr.nonempty type _ (Entries.mem_of_get?_eq_some hb)

/-- Sections that declare `app.js` twice and `style.css` in three places. -/
def contestedFiles : Mapping := [
  ("javascripts", .mapping [
    ("joinTo", .mapping [("app.js", .string "app/**"), ("style.css", .list [.string "vendor/*", .string "lib/**"])]),
    ("entryPoints", .mapping [
      ("*", .string "never.js"),
      ("app/main.js", .mapping [("main.js", .string "app/main/**"), ("app.js", .string "app/*")]),
      ("lib/late.js", .string "style.css")])]),
  ("images", .mapping [("joinTo", .string "main.js")]),
  ("stylesheets", .mapping [("joinTo", .mapping [("style.css", .string "**"), ("print.css", .string "print/*")])])]

theorem ofFiles_routes_contestedFiles : ∃ r, (Routing.ofFiles contestedFiles ["app"]).result = .ok r ∧
    (Value.mapping contestedFiles).WellKeyed ∧ r.Holds (firsts (Declaration.ofFiles contestedFiles)) ∧
    r.outputPaths = ["app.js", "style.css", "print.css", "main.js"] ∧
    ((r.entryBundles? .javascripts "app/main.js").getD []).map Prod.fst = ["main.js"] ∧
    (r.entryBundles? .javascripts "lib/late.js").getD [] = [] := by
  have hw : (Value.mapping contestedFiles).WellKeyed := by decide +kernel
  have hok : (Routing.ofFiles contestedFiles ["app"]).result.isOk = true := by decide +kernel
  obtain ⟨r, h⟩ := exists_ok_of_isOk hok
  obtain ⟨hr, -, hbundles⟩ := ofFiles_routes_firsts hw h
  refine ⟨r, h, hw, hr, ?_, ?_, ?_⟩
  · rw [hr.outputPaths]
    decide +kernel
  · have := congrArg (List.map Prod.fst) (hbundles .javascripts "app/main.js").1
    rw [List.map_map, List.map_map] at this
    exact this.trans (by decide +kernel)
  · refine List.map_eq_nil_iff.mp ((hbundles .javascripts "lib/late.js").1.trans (List.map_eq_nil_iff.mpr ?_))
    exact List.length_eq_zero_iff.mp (by decide +kernel)

end AssetPlan.Routing
