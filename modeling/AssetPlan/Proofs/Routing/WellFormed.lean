import AssetPlan.Proofs.Routing.FirstDeclared
import AssetPlan.Proofs.Value.Leaves
import AssetPlan.Proofs.Value.Shapes

/-! # Well-formed `files` sections

A `files` section compiles exactly if its sections are well formed. What is wanted of a section is said of its
settings one by one; no conflict matters, nor what stands under unknown keys, under the name of joined routing, or
under the entry points of types that have none. -/

namespace AssetPlan.Routing
open Declaration
variable {type : AssetType} {fields files : Mapping} {key : String} {v : Value} {shape : Value → Prop} {r : Routing}
  {watched : List String}

/-! ### Settings -/

/-- A value that declares outputs: one path, or paths with patterns. -/
inductive DeclaresOutputs : Value → Prop
  | path (output : String) : DeclaresOutputs (.string output)
  | patterns {outputs : Mapping} (h : ∀ o ∈ outputs, o.2.IsPattern) : DeclaresOutputs (.mapping outputs)

/-- A value that names bundles: one string, or a list of strings. -/
inductive NamesBundles : Value → Prop
  | one (name : String) : NamesBundles (.string name)
  | many (names : List String) : NamesBundles (.ofStrings names)

/-- A value that declares entry points. What stands under the name of joined routing is ignored. -/
inductive DeclaresEntries : Value → Prop
  | entries {es : Mapping} (h : ∀ e ∈ es, e.1 ≠ defaultEntry → DeclaresOutputs e.2) : DeclaresEntries (.mapping es)

/-- A setting that is missing or null, or that has a shape. -/
def Optionally (shape : Value → Prop) (fields : Mapping) (key : String) : Prop :=
  ∀ v, Entries.get? fields key = some v → v = .null ∨ shape v

/-- What is wanted of the section of an asset type. -/
structure WellFormedSection (type : AssetType) (fields : Mapping) : Prop where
  joinTo : Optionally DeclaresOutputs fields "joinTo"
  pluginHelpers : Optionally NamesBundles fields "pluginHelpers"
  entryPoints : type = .javascripts → Optionally DeclaresEntries fields "entryPoints"

/-- Every key of an asset type holds a section as is wanted. -/
def WellFormed (files : Mapping) : Prop :=
  ∀ type v, (AssetType.name type, v) ∈ files → ∃ fields, v = .mapping fields ∧ WellFormedSection type fields

theorem optionally_iff : Optionally shape fields key ↔ ∀ v, setting? fields key = some v → shape v := by
  unfold Optionally setting?
  cases Entries.get? fields key with
  | none => exact ⟨nofun, nofun⟩
  | some v => cases v <;> simp [Value.isNull]

theorem exists_ofValue_iff (key : List String) : (∃ bundles, Bundles.ofValue key v = .ok bundles) ↔ DeclaresOutputs v := by
  cases v with
  | string output => exact ⟨fun _ => .path output, fun _ => ⟨_, rfl⟩⟩
  | mapping outputs =>
    rw [Bundles.ofValue, exists_mapM_iff]
    have hread : ∀ o : String × Value, (∃ b : String × Matcher, (o.2.toPattern (key ++ [o.1]) >>= fun p =>
        .ok (o.1, Matcher.pattern p)) = .ok b) ↔ o.2.IsPattern := by
      intro o
      have hpattern : (∃ p, o.2.toPattern (key ++ [o.1]) = .ok p) ↔ o.2.IsPattern := Value.exists_toPattern_iff
      rw [← hpattern]
      constructor
      · rintro ⟨b, h⟩
        obtain ⟨p, hp, -⟩ := bind_eq_ok.mp h
        exact ⟨p, hp⟩
      · rintro ⟨p, hp⟩
        exact ⟨_, bind_eq_ok.mpr ⟨p, hp, rfl⟩⟩
    refine ⟨fun h => .patterns fun o ho => (hread o).mp (h o ho), fun h o ho => (hread o).mpr ?_⟩
    cases h with
    | patterns h => exact h o ho
  | _ => exact ⟨nofun, nofun⟩

theorem exists_strings?_iff : (∃ names, v.strings? = some names) ↔ NamesBundles v := by
  simp only [Value.strings?_eq_some_iff]
  constructor
  · rintro ⟨names, ⟨name, rfl, -⟩ | rfl⟩
    · exact .one name
    · exact .many names
  · intro h
    cases h with
    | one name => exact ⟨[name], .inl ⟨name, rfl, rfl⟩⟩
    | many names => exact ⟨names, .inr rfl⟩

/-! ### Joined outputs -/

theorem exists_joinedBundles_iff (type : AssetType) :
    (∃ bundles, joinedBundles type fields = .ok bundles) ↔ Optionally DeclaresOutputs fields "joinTo" := by
  rw [optionally_iff]
  unfold joinedBundles
  cases setting? fields "joinTo" with
  | none => exact ⟨nofun, fun _ => ⟨[], rfl⟩⟩
  | some v => simp [exists_ofValue_iff]

theorem exists_helpers_iff {bundles : Bundles} :
    (∃ names, helpers type fields bundles = .ok names) ↔ Optionally NamesBundles fields "pluginHelpers" := by
  rw [optionally_iff]
  unfold helpers
  cases setting? fields "pluginHelpers" with
  | none => exact ⟨nofun, fun _ => ⟨_, rfl⟩⟩
  | some v =>
    rw [show (∀ u, some v = some u → NamesBundles u) ↔ NamesBundles v by simp, ← exists_strings?_iff]
    dsimp only
    cases v.strings? with
    | none => exact ⟨nofun, nofun⟩
    | some names => exact ⟨fun _ => ⟨names, rfl⟩, fun _ => ⟨names, rfl⟩⟩

theorem exists_addJoins_iff : (∃ r', (r.addJoins type fields).result = .ok r') ↔
    Optionally DeclaresOutputs fields "joinTo" ∧ Optionally NamesBundles fields "pluginHelpers" := by
  rw [← exists_joinedBundles_iff type]
  constructor
  · rintro ⟨r', h⟩
    obtain ⟨bundles, hb, h⟩ := Reported.result_bind_eq_ok.mp h
    obtain ⟨_, -, h⟩ := Reported.result_bind_eq_ok.mp h
    obtain ⟨names, hnames, -⟩ := Reported.result_bind_eq_ok.mp h
    exact ⟨⟨bundles, hb⟩, exists_helpers_iff.mp ⟨names, hnames⟩⟩
  · rintro ⟨⟨bundles, hb⟩, hhelpers⟩
    obtain ⟨names, hnames⟩ := exists_helpers_iff.mpr hhelpers
    exact ⟨_, Reported.result_bind_eq_ok.mpr ⟨bundles, hb, Reported.result_bind_eq_ok.mpr ⟨(), rfl,
      Reported.result_bind_eq_ok.mpr ⟨names, hnames, rfl⟩⟩⟩⟩

theorem exists_addAllJoins_iff : (∃ joined, (r.addAllJoins files).result = .ok joined) ↔
    ∀ s ∈ files, ∀ type, AssetType.ofName? s.1 = some type → ∃ fields, s.2 = .mapping fields ∧
      Optionally DeclaresOutputs fields "joinTo" ∧ Optionally NamesBundles fields "pluginHelpers" := by
  induction files generalizing r with
  | nil => exact ⟨fun _ => nofun, fun _ => ⟨_, rfl⟩⟩
  | cons s rest ih =>
    obtain ⟨name, v⟩ := s
    rw [List.forall_mem_cons, addAllJoins]
    cases ht : AssetType.ofName? name with
    | none =>
      rw [← ih (r := r)]
      simp
    | some type =>
      -- Whether joined outputs can be added does not depend on what the table holds.
      have hhere : (∀ t, some type = some t → ∃ fields, (name, v).2 = .mapping fields ∧
            Optionally DeclaresOutputs fields "joinTo" ∧ Optionally NamesBundles fields "pluginHelpers") ↔
          ∃ fields, v = .mapping fields ∧ ∃ r', (r.addJoins type fields).result = .ok r' := by
        simp [exists_addJoins_iff]
      rw [hhere]
      constructor
      · rintro ⟨joined, h⟩
        cases v with
        | mapping fields =>
          obtain ⟨r₁, hr₁, h⟩ := Reported.result_bind_eq_ok.mp h
          obtain ⟨more, hmore, -⟩ := Reported.result_bind_eq_ok.mp h
          exact ⟨⟨fields, rfl, r₁, hr₁⟩, ih.mp ⟨more, hmore⟩⟩
        | _ => cases h
      · rintro ⟨⟨fields, rfl, r₁, hr₁⟩, hrest⟩
        obtain ⟨more, hmore⟩ := ih (r := r₁) |>.mpr hrest
        exact ⟨_, Reported.result_bind_eq_ok.mpr ⟨r₁, hr₁, Reported.result_bind_eq_ok.mpr ⟨more, hmore, rfl⟩⟩⟩

/-! ### Entry points -/

theorem exists_addEntryPoint_iff {e : String × Value} : (∃ r', (addEntryPoint watched type r e).result = .ok r') ↔
    (e.1 ≠ defaultEntry → DeclaresOutputs e.2) := by
  unfold addEntryPoint
  by_cases he : e.1 = defaultEntry
  · rw [if_pos he]
    exact ⟨fun _ hne => absurd he hne, fun _ => ⟨r, rfl⟩⟩
  · rw [if_neg he, forall_prop_of_true he, ← exists_ofValue_iff ["files", type.name, "entryPoints", e.1]]
    constructor
    · rintro ⟨r', h⟩
      obtain ⟨_, -, h⟩ := Reported.result_bind_eq_ok.mp h
      obtain ⟨bundles, hb, -⟩ := Reported.result_bind_eq_ok.mp h
      exact ⟨bundles, hb⟩
    · rintro ⟨bundles, hb⟩
      exact ⟨_, Reported.result_bind_eq_ok.mpr ⟨(), rfl, Reported.result_bind_eq_ok.mpr ⟨bundles, hb, rfl⟩⟩⟩

theorem exists_addEntryPoints_iff {s : AssetType × Mapping} : (∃ r', (addEntryPoints watched r s).result = .ok r') ↔
    (s.1 = .javascripts → Optionally DeclaresEntries s.2 "entryPoints") := by
  rw [optionally_iff]
  unfold addEntryPoints
  cases setting? s.2 "entryPoints" with
  | none => exact ⟨nofun, fun _ => ⟨r, rfl⟩⟩
  | some v =>
    obtain ⟨type, fields⟩ := s
    cases type with
    | javascripts =>
      cases v with
      | mapping es =>
        show (∃ r', (es.foldlM (addEntryPoint watched .javascripts) r).result = .ok r') ↔ _
        rw [Reported.exists_foldlM_iff (f := addEntryPoint watched .javascripts) fun _ _ => exists_addEntryPoint_iff]
        constructor
        · rintro h - v' hv'
          cases hv'
          exact .entries h
        · intro h
          cases h rfl _ rfl with
          | entries h => exact h
      | _ =>
        refine ⟨nofun, fun h => ?_⟩
        cases h rfl _ rfl
    | _ => exact ⟨nofun, fun _ => ⟨r, rfl⟩⟩

theorem exists_foldlM_addEntryPoints_iff {ss : List (AssetType × Mapping)} :
    (∃ r', (ss.foldlM (addEntryPoints watched) r).result = .ok r') ↔
      ∀ s ∈ ss, s.1 = .javascripts → Optionally DeclaresEntries s.2 "entryPoints" :=
  Reported.exists_foldlM_iff (f := addEntryPoints watched) fun _ _ => exists_addEntryPoints_iff

/-! ### Whole sections -/

theorem mem_sections_of_mem (h : (type.name, Value.mapping fields) ∈ files) : (type, fields) ∈ sections files := by
  refine List.mem_filterMap.mpr ⟨_, h, ?_⟩
  rw [AssetType.ofName?_name]
  rfl

/-- A `files` section compiles exactly if the section of every asset type is well formed. No conflict makes it fail,
    and no directory that is or is not watched; and no output is dropped before its pattern is read. -/
theorem exists_ofFiles_iff (files : Mapping) (watched : List String) :
    (∃ r, (Routing.ofFiles files watched).result = .ok r) ↔ WellFormed files := by
  constructor
  · rintro ⟨r, h⟩
    obtain ⟨⟨r₁, ss⟩, h₁, h⟩ := Reported.result_bind_eq_ok.mp h
    have hentries := exists_foldlM_addEntryPoints_iff.mp ⟨r, h⟩
    obtain rfl := sections_of_addAllJoins h₁
    intro type v hv
    obtain ⟨fields, rfl, hjoin, hhelpers⟩ :=
      exists_addAllJoins_iff.mp ⟨_, h₁⟩ _ hv type (AssetType.ofName?_name type)
    exact ⟨fields, rfl, hjoin, hhelpers, hentries _ (mem_sections_of_mem hv)⟩
  · intro hfiles
    -- Each pass asks for its own settings of a section: first the joined outputs and the helpers.
    have hjoins : ∃ joined, (empty.addAllJoins files).result = .ok joined := by
      refine exists_addAllJoins_iff.mpr fun s hs type ht => ?_
      have hs : (type.name, s.2) ∈ files := by
        rw [AssetType.name_of_ofName? ht]
        exact hs
      obtain ⟨fields, hv, hsection⟩ := hfiles _ _ hs
      exact ⟨fields, hv, hsection.joinTo, hsection.pluginHelpers⟩
    obtain ⟨⟨r₁, ss⟩, h₁⟩ := hjoins
    obtain rfl := sections_of_addAllJoins h₁
    -- Then the entry points, over whatever table the first pass has left.
    have hentries : ∃ r, ((sections files).foldlM (addEntryPoints watched) r₁).result = .ok r := by
      refine exists_foldlM_addEntryPoints_iff.mpr fun s hs htype => ?_
      obtain ⟨fields, hv, hsection⟩ := hfiles _ _ (mem_sections hs)
      cases hv
      exact hsection.entryPoints htype
    obtain ⟨r, h⟩ := hentries
    exact ⟨r, Reported.result_bind_eq_ok.mpr ⟨_, h₁, h⟩⟩

/-- The style sheets cannot have the output of the scripts, and still its pattern must compile. -/
example : (Routing.ofFiles [
    ("javascripts", .mapping [("joinTo", .string "app.js")]),
    ("stylesheets", .mapping [("joinTo", .mapping [("app.js", .string "/(/")])])] []).result.isOk = false := by
  decide +kernel

end AssetPlan.Routing
