import AssetPlan.Proofs.ConfigError
import AssetPlan.Proofs.Routing.FirstDeclared

/-! # Rejected `files` sections

A `files` section that does not compile has a value that is rejected, and the error names the whole path to it, from
`files` over the asset type down to the output path or the entry point. -/

namespace AssetPlan.Routing
variable {r : Routing} {type : AssetType} {fields files : Mapping} {watched : List String} {v : Value} {e : ConfigError}

theorem rejects_of_ofValue {key : List String} (hw : v.WellKeyed) (h : Bundles.ofValue key v = .error e) :
    e.RejectsBelow key v := by
  cases v with
  | string output => cases h
  | mapping outputs =>
    obtain ⟨⟨output, u⟩, hmem, h⟩ := exists_of_mapM_eq_error h
    rcases bind_eq_error.mp h with hu | ⟨p, -, h⟩
    · obtain ⟨hkey, -, hrejects⟩ := Value.rejects_of_toPattern hu
      exact .under (Entries.get?_of_mem hw.1 hmem) (.here hkey hrejects)
    · cases h
  | _ =>
    cases h
    exact .here rfl (by rintro (⟨_, h⟩ | h) <;> cases h)

/-! ### Joined outputs -/

theorem rejects_of_joinedBundles (hw : (Value.mapping fields).WellKeyed) (h : joinedBundles type fields = .error e) :
    e.RejectsBelow ["files", type.name] (.mapping fields) := by
  unfold joinedBundles at h
  cases hv : setting? fields "joinTo" with
  | none =>
    rw [hv] at h
    cases h
  | some v =>
    rw [hv] at h
    have hget := (setting?_eq_some_iff.mp hv).1
    exact .under hget (rejects_of_ofValue (hw.get? hget) h)

theorem rejects_of_helpers {bundles : Bundles} (h : helpers type fields bundles = .error e) :
    e.RejectsBelow ["files", type.name] (.mapping fields) := by
  unfold helpers at h
  cases hv : setting? fields "pluginHelpers" with
  | none =>
    rw [hv] at h
    cases h
  | some v =>
    rw [hv] at h
    dsimp only at h
    cases hnames : v.strings? with
    | some names =>
      rw [hnames] at h
      cases h
    | none =>
      rw [hnames] at h
      cases h
      exact .under (setting?_eq_some_iff.mp hv).1 (.here rfl (Shape.not_fits_of_strings? hnames))

theorem rejects_of_addJoins (hw : (Value.mapping fields).WellKeyed) (h : (r.addJoins type fields).result = .error e) :
    e.RejectsBelow ["files", type.name] (.mapping fields) := by
  rcases Reported.result_bind_eq_error.mp h with hb | ⟨bundles, -, h⟩
  · exact rejects_of_joinedBundles hw hb
  rcases Reported.result_bind_eq_error.mp h with h | ⟨_, -, h⟩
  · cases h
  rcases Reported.result_bind_eq_error.mp h with hnames | ⟨names, -, h⟩
  · exact rejects_of_helpers hnames
  · cases h

theorem rejects_of_addAllJoins {sections : Mapping} (hsections : ∀ s ∈ sections, Entries.get? files s.1 = some s.2)
    (hw : (Value.mapping files).WellKeyed) (h : (r.addAllJoins sections).result = .error e) :
    e.RejectsBelow ["files"] (.mapping files) := by
  induction sections generalizing r with
  | nil => cases h
  | cons s rest ih =>
    obtain ⟨name, v⟩ := s
    have hrest : ∀ s ∈ rest, Entries.get? files s.1 = some s.2 := fun s hs => hsections s (List.mem_cons_of_mem _ hs)
    have hget : Entries.get? files name = some v := hsections _ List.mem_cons_self
    unfold addAllJoins at h
    cases ht : AssetType.ofName? name with
    | none =>
      rw [ht] at h
      rcases Reported.result_bind_eq_error.mp h with h | ⟨_, -, h⟩
      · cases h
      · exact ih hrest h
    | some type =>
      rw [ht] at h
      obtain rfl := AssetType.name_of_ofName? ht
      cases v with
      | mapping fields =>
        rcases Reported.result_bind_eq_error.mp h with hjoins | ⟨r', -, h⟩
        · exact .under hget (rejects_of_addJoins (hw.get? hget) hjoins)
        rcases Reported.result_bind_eq_error.mp h with hmore | ⟨more, -, h⟩
        · exact ih hrest hmore
        · cases h
      | _ =>
        cases h
        exact .under hget (.here rfl Bool.false_ne_true)

/-! ### Entry points -/

theorem rejects_of_addEntryPoint {entry : String × Value} (hw : entry.2.WellKeyed)
    (h : (addEntryPoint watched type r entry).result = .error e) :
    e.RejectsBelow ["files", type.name, "entryPoints", entry.1] entry.2 := by
  unfold addEntryPoint at h
  split at h
  · cases h
  · rcases Reported.result_bind_eq_error.mp h with h | ⟨_, -, h⟩
    · cases h
    rcases Reported.result_bind_eq_error.mp h with hb | ⟨bundles, -, h⟩
    · exact rejects_of_ofValue hw hb
    rcases Reported.result_bind_eq_error.mp h with h | ⟨_, -, h⟩
    · cases h
    · cases h

theorem rejects_of_addEntryPoints (hw : (Value.mapping fields).WellKeyed)
    (h : (addEntryPoints watched r (type, fields)).result = .error e) :
    e.RejectsBelow ["files", type.name] (.mapping fields) := by
  unfold addEntryPoints at h
  dsimp only at h
  cases hv : setting? fields "entryPoints" with
  | none =>
    rw [hv] at h
    cases h
  | some v =>
    rw [hv] at h
    have hget := (setting?_eq_some_iff.mp hv).1
    dsimp only at h
    split at h
    · cases h
    · cases v with
      | mapping entries =>
        obtain ⟨entry, hmem, r', h⟩ := Reported.exists_of_result_foldlM_eq_error h
        have hentries := hw.get? hget
        exact .under hget (.under (Entries.get?_of_mem hentries.1 hmem)
          (rejects_of_addEntryPoint (Value.wellKeyed_of_mem hentries.2 hmem) h))
      | _ =>
        cases h
        exact .under hget (.here rfl Bool.false_ne_true)

/-! ### Whole sections -/

/-- A `files` section that does not compile has a value that is rejected, and the error names the path to it. -/
theorem rejects_of_ofFiles (hw : (Value.mapping files).WellKeyed) (h : (ofFiles files watched).result = .error e) :
    e.RejectsBelow ["files"] (.mapping files) := by
  rcases Reported.result_bind_eq_error.mp h with hjoins | ⟨⟨r, ss⟩, hjoins, h⟩
  · exact rejects_of_addAllJoins (fun s hs => Entries.get?_of_mem hw.1 hs) hw hjoins
  · obtain rfl := sections_of_addAllJoins hjoins
    obtain ⟨⟨type, fields⟩, hmem, r', h⟩ := Reported.exists_of_result_foldlM_eq_error h
    have hfields := mem_sections hmem
    exact .under (Entries.get?_of_mem hw.1 hfields) (rejects_of_addEntryPoints (Value.wellKeyed_of_mem hw.2 hfields) h)

end AssetPlan.Routing
