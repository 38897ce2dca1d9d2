import AssetPlan.Proofs.Routing.Conflicts
import AssetPlan.Proofs.Routing.Destinations
import AssetPlan.Proofs.Routing.WellFormed
import AssetPlan.Proofs.Text

/-! # Bundles for the helper code of plugins

A section names the bundles that receive the helper code of plugins, or the bundle is inferred from those joined
outputs of the section that no earlier declaration has taken. It is inferred when the joined outputs of the section are
added (`Helped`), and later sections and entry points leave these outputs as they are, so it is what the finished table
says, and it belongs to the joined routing of its own asset type. -/

namespace AssetPlan

namespace Declaration
variable {ds : List Declaration} {d : Declaration} {p : Declaration → Bool}

/-- Whether the bundle of a declaration takes the files of vendors. -/
def takesVendor (d : Declaration) : Bool := d.matcher?.any (·.accepts "vendor/.")

/-- An output path that is named like a vendor bundle, in small or in capital letters. -/
def IsVendorNamed (d : Declaration) : Prop := "vendor".toList <:+: d.output.toList.map Char.toLower

/-- The first of the declarations of which something holds. -/
def IsFirst (holds : Declaration → Prop) (ds : List Declaration) (d : Declaration) : Prop :=
  ∃ before behind, ds = before ++ d :: behind ∧ holds d ∧ ∀ e ∈ before, ¬ holds e

/-- The declaration whose bundle receives the helper code: the first that takes the files of vendors, else the first that
    is named like a vendor bundle, else the first. -/
inductive ReceivesHelpers (ds : List Declaration) (d : Declaration) : Prop
  | takesVendor (h : IsFirst (·.takesVendor = true) ds d)
  | vendorNamed (hnone : ∀ e ∈ ds, e.takesVendor = false) (h : IsFirst IsVendorNamed ds d)
  | first (hnone : ∀ e ∈ ds, e.takesVendor = false) (hunnamed : ∀ e ∈ ds, ¬ e.IsVendorNamed) (h : ds.head? = some d)

theorem isVendorName_output_iff : Routing.isVendorName d.output = true ↔ d.IsVendorNamed := Text.occursIn_iff_infix

/-- The declaration that is chosen to receive the helper code. -/
def helper? (ds : List Declaration) : Option Declaration :=
  ((ds.find? takesVendor).or (ds.find? fun d => Routing.isVendorName d.output)).or ds.head?

theorem isFirst_of_find? (h : ds.find? p = some d) : IsFirst (p · = true) ds d := by
  obtain ⟨hd, before, behind, rfl, hbefore⟩ := List.find?_eq_some_iff_append.mp h
  exact ⟨before, behind, rfl, hd, fun e he => by simpa using hbefore e he⟩

theorem helper?_eq_none_iff : helper? ds = none ↔ ds = [] := by
  unfold helper?
  rw [Option.or_eq_none_iff, List.head?_eq_none_iff]
  refine ⟨And.right, ?_⟩
  rintro rfl
  exact ⟨rfl, rfl⟩

theorem receivesHelpers_of_helper? (h : helper? ds = some d) : ReceivesHelpers ds d := by
  unfold helper? at h
  cases htakes : ds.find? takesVendor with
  | some e =>
    rw [htakes] at h
    cases h
    exact .takesVendor (isFirst_of_find? htakes)
  | none =>
    have hnone : ∀ e ∈ ds, e.takesVendor = false := fun e he => by simpa using List.find?_eq_none.mp htakes e he
    rw [htakes] at h
    cases hnamed : ds.find? fun d => Routing.isVendorName d.output with
    | some e =>
      rw [hnamed] at h
      cases h
      have hfirst := isFirst_of_find? hnamed
      simp only [isVendorName_output_iff] at hfirst
      exact .vendorNamed hnone hfirst
    | none =>
      rw [hnamed] at h
      refine .first hnone (fun e he hname => ?_) h
      exact List.find?_eq_none.mp hnamed e he (isVendorName_output_iff.mpr hname)

theorem IsFirst.mem {holds : Declaration → Prop} (h : IsFirst holds ds d) : d ∈ ds := by
  obtain ⟨before, behind, rfl, -, -⟩ := h
  simp

theorem ReceivesHelpers.mem (h : ReceivesHelpers ds d) : d ∈ ds := by
  cases h with
  | takesVendor h => exact h.mem
  | vendorNamed _ h => exact h.mem
  | first _ _ h => exact List.mem_of_mem_head? h

/-- The joined outputs of an asset type that belong to no earlier declaration. -/
def ownJoined (files : Mapping) (type : AssetType) : List Declaration :=
  (firsts (ofFiles files)).filter fun d => d.type = type ∧ d.entry = defaultEntry

end Declaration

namespace Routing
open Declaration
variable {r r' : Routing} {type type' : AssetType} {entry output : String} {bundles : Bundles} {names : List String}
  {fields files : Mapping} {ds : List Declaration} {watched : List String}

/-! ### What is inferred -/

/-- The choice among bundles is the choice among the declarations that they show. -/
theorem inferHelpers_eq (hb : bundles.map Bundles.shown = ds.map Declaration.shown) :
    inferHelpers bundles = ((helper? ds).map (·.output)).toList := by
  have haccepting : (Entries.keys (bundles.filter fun b => b.2.accepts vendorProbe)).head? =
      (ds.find? takesVendor).map (·.output) := by
    have hfind := congrArg (fun rows => (rows.find? fun row => row.2.any (·.accepts vendorProbe)).map Prod.fst) hb
    simp only [List.find?_map, Option.map_map] at hfind
    unfold Entries.keys
    rw [List.head?_map, List.head?_filter]
    exact hfind
  unfold inferHelpers helper?
  dsimp only
  rw [haccepting, keys_of_shown hb, List.find?_map, List.head?_map, Option.map_or, Option.map_or]
  rfl

/-! ### Joined outputs -/

/-- The helpers of an asset type are those that its section gives to its joined outputs. -/
def Helped (r : Routing) (s : AssetType × Mapping) : Prop :=
  helpers s.1 s.2 ((r.defaultBundles? s.1).getD []) = .ok (r.pluginHelpers s.1)

theorem Helped.congr {s : AssetType × Mapping} (h : r.Helped s)
    (hsame : Entries.get? r'.types s.1 = Entries.get? r.types s.1) : r'.Helped s := by
  unfold Helped defaultBundles? entryBundles? entries? pluginHelpers at h ⊢
  rw [hsame]
  exact h

theorem pluginHelpers_withEntry : (r.withEntry type entry bundles names).pluginHelpers type' =
    if type = type' then names else r.pluginHelpers type' := by
  unfold pluginHelpers withEntry
  rw [Entries.get?_insert]
  split <;> rfl

theorem addJoins_helped (hnew : Entries.get? r.types type = none) (h : (r.addJoins type fields).result = .ok r') :
    r'.Helped (type, fields) := by
  obtain ⟨bundles, names, -, hnames, rfl⟩ := addJoins_eq_ok h
  have hnone : r.entries? type = none := by
    unfold entries?
    rw [hnew]
    rfl
  have hentry : r.entryBundles? type defaultEntry = none := by
    unfold entryBundles?
    rw [hnone]
    rfl
  -- The asset type is new, so its joined bundles are those that this section has claimed.
  have hkept : ((r.withEntry type defaultEntry (bundles.claim r.outputPaths).1 names).defaultBundles? type).getD [] =
      (bundles.claim r.outputPaths).1 := by
    unfold defaultBundles?
    rw [entryBundles?_eq, entries?_withEntry hentry, hnone]
    cases (bundles.claim r.outputPaths).1 <;> simp [Entries.get?_cons]
  show helpers type fields _ = .ok _
  rw [hkept, hnames, pluginHelpers_withEntry, if_pos rfl]

theorem get?_types_addAllJoins {joined : Routing × List (AssetType × Mapping)}
    (hother : ∀ s ∈ files, AssetType.ofName? s.1 ≠ some type) (h : (r.addAllJoins files).result = .ok joined) :
    Entries.get? joined.1.types type = Entries.get? r.types type := by
  induction files generalizing r joined with
  | nil =>
    cases h
    rfl
  | cons s rest ih =>
    obtain ⟨hname, hrest⟩ := List.forall_mem_cons.mp hother
    obtain ⟨name, v⟩ := s
    rcases addAllJoins_cons_eq_ok h with ⟨-, h⟩ | ⟨other, fields, r₁, more, ht, rfl, hr₁, hmore, rfl⟩
    · exact ih hrest h
    · rw [ih hrest hmore]
      exact get?_types_addJoins_of_ne (fun heq => hname (ht.trans (congrArg some heq))) hr₁

/-- Sections of other asset types come before or behind a section, and none of them changes what it settled. -/
theorem addAllJoins_helped (hw : Entries.WellKeyed files) {joined : Routing × List (AssetType × Mapping)}
    (hnew : ∀ s ∈ files, ∀ type, AssetType.ofName? s.1 = some type → Entries.get? r.types type = none)
    (h : (r.addAllJoins files).result = .ok joined) : ∀ s ∈ sections files, joined.1.Helped s := by
  induction files generalizing r joined with
  | nil => exact nofun
  | cons s rest ih =>
    obtain ⟨name, v⟩ := s
    obtain ⟨hname, hrest⟩ := Entries.wellKeyed_cons.mp hw
    obtain ⟨hhere, hlater⟩ := List.forall_mem_cons.mp hnew
    rcases addAllJoins_cons_eq_ok h with ⟨ht, h⟩ | ⟨type, fields, r₁, more, ht, rfl, hr₁, hmore, rfl⟩
    · rw [sections_cons_of_none v rest ht]
      exact ih hrest hlater h
    · have hkept : Entries.get? more.1.types type = Entries.get? r₁.types type :=
        get?_types_addAllJoins (fun s hs heq => type_ne_of_mem hname ht hs heq rfl) hmore
      have hothers : ∀ s ∈ sections rest, more.1.Helped s := ih hrest (new_of_addJoins hname ht hlater hr₁) hmore
      rw [sections_cons_mapping fields rest ht, List.forall_mem_cons]
      exact ⟨(addJoins_helped (hhere type ht) hr₁).congr hkept, hothers⟩

/-! ### Entry points -/

theorem pluginHelpers_addEntryPoint {e : String × Value} (h : (addEntryPoint watched type r e).result = .ok r') :
    r'.pluginHelpers = r.pluginHelpers := by
  rcases addEntryPoint_eq_ok h with ⟨-, rfl⟩ | ⟨-, _, bundles, -, rfl⟩
  · rfl
  · split
    · rfl
    · funext type'
      rw [pluginHelpers_withEntry]
      split
      · rename_i htype
        rw [htype]
      · rfl

theorem ofFiles_helped (hw : Entries.WellKeyed files) (h : (Routing.ofFiles files watched).result = .ok r) :
    ∀ s ∈ sections files, r.Helped s := by
  obtain ⟨⟨r₁, ss⟩, h₁, h⟩ := Reported.result_bind_eq_ok.mp h
  have hhelped := addAllJoins_helped hw (fun _ _ _ _ => rfl) h₁
  have hbundles : r.defaultBundles? = r₁.defaultBundles? :=
    Reported.eq_of_result_foldlM (f := addEntryPoints watched) defaultBundles?_addEntryPoints h
  have hnames : r.pluginHelpers = r₁.pluginHelpers :=
    Reported.eq_of_result_foldlM (f := addEntryPoints watched) (eq_of_addEntryPoints pluginHelpers_addEntryPoint) h
  intro s hs
  unfold Helped
  rw [hbundles, hnames]
  exact hhelped s hs

/-! ### The finished table -/

theorem eq_of_helpers_named {named : Value} (hnamed : setting? fields "pluginHelpers" = some named)
    (h : helpers type fields bundles = .ok names) :
    (∃ name, named = .string name ∧ names = [name]) ∨ named = .ofStrings names := by
  unfold helpers at h
  rw [hnamed] at h
  dsimp only at h
  split at h
  · rename_i texts htexts
    cases h
    exact Value.strings?_eq_some_iff.mp htexts
  · cases h

theorem eq_of_helpers_inferred (hunset : setting? fields "pluginHelpers" = none)
    (hb : bundles.map Bundles.shown = ds.map Declaration.shown) (h : helpers type fields bundles = .ok names) :
    names = ((helper? ds).map (·.output)).toList := by
  unfold helpers at h
  rw [hunset] at h
  exact (Except.ok.inj h).symm.trans (inferHelpers_eq hb)

theorem Holds.exists_of_mem_keys (h : r.Holds ds) (hb : r.entryBundles? type entry = some bundles)
    (houtput : output ∈ Entries.keys bundles) : ∃ d ∈ ds, d.output = output ∧ d.type = type ∧ d.entry = entry := by
  obtain ⟨b, hmem, rfl⟩ := List.mem_map.mp houtput
  have hshown := h.bundles type entry
  rw [hb] at hshown
  obtain ⟨d, hd, hsame⟩ := List.mem_map.mp (hshown ▸ List.mem_map_of_mem hmem)
  obtain ⟨hd, hplace⟩ := List.mem_filter.mp hd
  exact ⟨d, hd, congrArg Prod.fst hsame, of_decide_eq_true hplace⟩

/-- An output path has one first declaration, so it stands in one place of the table. -/
theorem Holds.place_of_mem_keys {d : Declaration} (h : r.Holds (firsts ds)) (hd : d ∈ firsts ds)
    (hb : r.entryBundles? type entry = some bundles) (houtput : d.output ∈ Entries.keys bundles) :
    type = d.type ∧ entry = d.entry := by
  obtain ⟨d', hd', hsame, rfl, rfl⟩ := h.exists_of_mem_keys hb houtput
  have hfirst := mem_firsts_iff.mp hd'
  rw [hsame, mem_firsts_iff.mp hd] at hfirst
  cases hfirst
  exact ⟨rfl, rfl⟩

/-- The finished table has for an asset type the bundles that its section names for the helper code of plugins. Without
    any it has the one that receives the code among the joined outputs of the section that no earlier declaration has
    taken; so it has none exactly if there are no such outputs, and never one of another asset type or an entry point. -/
theorem pluginHelpers_ofFiles {v : Value} (hw : (Value.mapping files).WellKeyed)
    (h : (Routing.ofFiles files watched).result = .ok r) (hv : Entries.get? files type.name = some v) :
    ((r.defaultBundles? type).getD []).map Bundles.shown = (ownJoined files type).map Declaration.shown ∧
    (∀ named, v.get? "pluginHelpers" = some named → named ≠ .null →
      (∃ name, named = .string name ∧ r.pluginHelpers type = [name]) ∨
        ∃ names, named = .ofStrings names ∧ r.pluginHelpers type = names) ∧
    ((∀ named, v.get? "pluginHelpers" = some named → named = .null) →
      (r.pluginHelpers type = [] ↔ ownJoined files type = []) ∧
      (ownJoined files type ≠ [] → ∃ d, r.pluginHelpers type = [d.output] ∧ ReceivesHelpers (ownJoined files type) d) ∧
      ∀ output ∈ r.pluginHelpers type, ∀ type' entry bundles, r.entryBundles? type' entry = some bundles →
        output ∈ Entries.keys bundles → type' = type ∧ entry = defaultEntry) := by
  have hr := ofFiles_holds hw h
  obtain ⟨fields, rfl, -⟩ := (exists_ofFiles_iff files watched).mp ⟨r, h⟩ type v (Entries.mem_of_get?_eq_some hv)
  have hjoined : ((r.defaultBundles? type).getD []).map Bundles.shown = (ownJoined files type).map Declaration.shown :=
    hr.bundles type defaultEntry
  have hhelped : helpers type fields ((r.defaultBundles? type).getD []) = .ok (r.pluginHelpers type) :=
    ofFiles_helped hw.1 h _ (mem_sections_of_mem (Entries.mem_of_get?_eq_some hv))
  refine ⟨hjoined, fun named hnamed hnull => ?named, fun hnull => ?inferred⟩
  case named =>
    rcases eq_of_helpers_named (setting?_eq_some_iff.mpr ⟨hnamed, hnull⟩) hhelped with hone | hall
    · exact .inl hone
    · exact .inr ⟨_, hall, rfl⟩
  case inferred =>
    -- A null counts as not written.
    have hunset : setting? fields "pluginHelpers" = none := by
      refine Option.eq_none_iff_forall_ne_some.mpr fun named hnamed => ?_
      obtain ⟨hget, hne⟩ := setting?_eq_some_iff.mp hnamed
      exact hne (hnull named hget)
    rw [eq_of_helpers_inferred hunset hjoined hhelped]
    cases hchoice : helper? (ownJoined files type) with
    | none => simp [helper?_eq_none_iff.mp hchoice]
    | some d =>
      have hreceives := receivesHelpers_of_helper? hchoice
      have hne : ownJoined files type ≠ [] := List.ne_nil_of_mem hreceives.mem
      refine ⟨⟨nofun, fun h => absurd h hne⟩, fun _ => ⟨d, rfl, hreceives⟩, ?_⟩
      intro output houtput type' entry bundles hbundles hmem
      -- The chosen output was declared first here, so it stands nowhere else in the table.
      obtain rfl := List.mem_singleton.mp houtput
      obtain ⟨hd, hplace⟩ := List.mem_filter.mp hreceives.mem
      obtain ⟨rfl, hjoin⟩ := of_decide_eq_true hplace
      obtain ⟨htype, hentry⟩ := hr.place_of_mem_keys hd hbundles hmem
      exact ⟨htype, hentry.trans hjoin⟩

/-- Scripts that take the files of vendors, styles that declare the same output in vain and have another one with the name
    of a vendor bundle, and templates that name a bundle. -/
def vendoredFiles : Mapping := [
  ("javascripts", .mapping [("joinTo", .mapping [("app.js", .string "app/**"), ("libs.js", .list [.string "/^vendor/"])])]),
  ("stylesheets", .mapping [("joinTo", .mapping [
    ("libs.js", .string "vendor/**"), ("app.css", .string "app/**"), ("theVendor.css", .string "lib/**")])]),
  ("templates", .mapping [("joinTo", .string "libs.js"), ("pluginHelpers", .string "app.js")])]

theorem pluginHelpers_vendoredFiles : ∃ r, (Routing.ofFiles vendoredFiles []).result = .ok r ∧
    (Value.mapping vendoredFiles).WellKeyed ∧ r.pluginHelpers .stylesheets = ["theVendor.css"] ∧
    (∃ d, r.pluginHelpers .stylesheets = [d.output] ∧ ReceivesHelpers (ownJoined vendoredFiles .stylesheets) d) ∧
    ownJoined vendoredFiles .templates = [] ∧ r.pluginHelpers .templates = ["app.js"] := by
  have hw : (Value.mapping vendoredFiles).WellKeyed := by decide +kernel
  have hchosen : (Routing.ofFiles vendoredFiles []).result.toOption.map (·.pluginHelpers .stylesheets) =
      some ["theVendor.css"] := by decide +kernel
  cases h : (Routing.ofFiles vendoredFiles []).result with
  | error e =>
    rw [h] at hchosen
    cases hchosen
  | ok r =>
    rw [h] at hchosen
    obtain ⟨-, -, hinferred⟩ := pluginHelpers_ofFiles hw h
      (show Entries.get? vendoredFiles (AssetType.name .stylesheets) = some _ from rfl)
    obtain ⟨-, hnamed, -⟩ := pluginHelpers_ofFiles hw h
      (show Entries.get? vendoredFiles (AssetType.name .templates) = some _ from rfl)
    refine ⟨r, rfl, hw, Option.some.inj hchosen, ?_, List.length_eq_zero_iff.mp (by decide +kernel), ?_⟩
    · refine (hinferred nofun).2.1 fun hnil => ?_
      exact absurd (List.length_eq_zero_iff.mpr hnil) (by decide +kernel)
    · rcases hnamed (.string "app.js") rfl nofun with ⟨name, hname, hone⟩ | ⟨names, hnames, -⟩
      · cases hname
        exact hone
      · cases hnames

end Routing
end AssetPlan
