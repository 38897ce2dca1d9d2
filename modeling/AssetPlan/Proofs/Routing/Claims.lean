import AssetPlan.Proofs.Routing.Declaration
import AssetPlan.Proofs.Value.Pattern
import AssetPlan.Proofs.Value.WellKeyed

/-! # What a routing table holds

`Holds r ds` says that a routing table holds the declarations `ds` and nothing else. One batch of outputs
for one new entry keeps it: the table then holds the first declarations of all outputs so far, whether the
batch has outputs that are still free (`Holds.withEntry`) or has none (`Holds.claimed_nil`). -/

namespace AssetPlan

/-- An output path with its matcher, as a table shows a bundle. -/
def Bundles.shown (b : String × Matcher) : String × Option Matcher := (b.1, some b.2)

/-- The output path and the matcher of a declaration. -/
def Declaration.shown (d : Declaration) : String × Option Matcher := (d.output, d.matcher?)

/-- The entry, the output path and the matcher of a declaration. -/
def Declaration.row (d : Declaration) : String × String × Option Matcher := (d.entry, d.shown)

namespace Routing

/-- The bundles of an asset type in order, each with its entry. -/
def rows (r : Routing) (type : AssetType) : List (String × String × Option Matcher) :=
  ((r.entries? type).getD []).flatMap fun e => e.2.map fun b => (e.1, Bundles.shown b)

/-- The table holds exactly these declarations: the output paths in their order, and for every asset type
    the bundles of its declarations in their order. No key occurs twice, and no entry is without a bundle. -/
structure Holds (r : Routing) (ds : List Declaration) : Prop where
  outputPaths : r.outputPaths = ds.map (·.output)
  rows : ∀ type, r.rows type = (ds.filter (·.type = type)).map Declaration.row
  types : Entries.WellKeyed r.types
  entries : ∀ type, Entries.WellKeyed ((r.entries? type).getD [])
  nonempty : ∀ type, ∀ e ∈ (r.entries? type).getD [], e.2 ≠ []

/-! ### Looking into a table -/

section Looking
variable {r : Routing} {type : AssetType}

theorem routesOf_entries : (r.routesOf type).entries = (r.entries? type).getD [] := by
  unfold routesOf entries?
  cases Entries.get? r.types type <;> rfl

theorem entryBundles?_eq (entry : String) :
    r.entryBundles? type entry = Entries.get? ((r.entries? type).getD []) entry := by
  unfold entryBundles?
  cases r.entries? type <;> rfl

/-- A new entry stands behind those of its asset type, unless it has no bundles. -/
theorem entries?_withEntry {entry : String} (hnew : r.entryBundles? type entry = none) (bundles : Bundles)
    (helpers : List String) (type' : AssetType) :
    ((r.withEntry type entry bundles helpers).entries? type').getD [] =
      (r.entries? type').getD [] ++ if type = type' ∧ bundles ≠ [] then [(entry, bundles)] else [] := by
  rw [entryBundles?_eq] at hnew
  unfold withEntry
  simp only [routesOf_entries, entries?, Entries.get?_insert] at hnew ⊢
  by_cases ht : type = type'
  · subst ht
    cases bundles with
    | nil => simp
    | cons b rest => simp [Entries.insert_of_get?_eq_none hnew]
  · simp [ht]

theorem rows_withEntry {entry : String} (hnew : r.entryBundles? type entry = none) (bundles : Bundles)
    (helpers : List String) (type' : AssetType) :
    (r.withEntry type entry bundles helpers).rows type' =
      r.rows type' ++ if type = type' then bundles.map fun b => (entry, Bundles.shown b) else [] := by
  unfold rows
  rw [entries?_withEntry hnew, List.flatMap_append]
  congr 1
  by_cases ht : type = type' <;> cases bundles <;> simp [ht]

theorem filter_rows (h : Entries.WellKeyed ((r.entries? type).getD [])) (entry : String) :
    (r.rows type).filter (fun row => row.1 = entry) =
      (((r.entryBundles? type entry).getD []).map Bundles.shown).map (entry, ·) := by
  have hrows : r.rows type =
      ((r.entries? type).getD []).flatMap fun e => (e.2.map Bundles.shown).map (e.1, ·) := by
    simp only [rows, List.map_map, Function.comp_def]
  rw [hrows, Entries.filter_flatMap_key h, ← entryBundles?_eq]
  cases r.entryBundles? type entry <;> rfl

end Looking

/-- The bundles of an entry are those of its declarations. -/
theorem Holds.bundles {r : Routing} {ds : List Declaration} (h : r.Holds ds) (type : AssetType) (entry : String) :
    ((r.entryBundles? type entry).getD []).map Bundles.shown =
      (ds.filter fun d => d.type = type ∧ d.entry = entry).map Declaration.shown := by
  have hpick : ((ds.filter (·.type = type)).map Declaration.row).filter (fun row => row.1 = entry) =
      (ds.filter fun d => d.type = type ∧ d.entry = entry).map Declaration.row := by
    rw [List.filter_map, List.filter_filter]
    congr 1
    apply List.filter_congr
    intro d _
    by_cases he : d.entry = entry <;> by_cases ht : d.type = type <;> simp [Declaration.row, he, ht]
  have hrows := filter_rows (h.entries type) entry
  rw [h.rows, hpick] at hrows
  have hshown := congrArg (List.map Prod.snd) hrows
  rw [List.map_map, List.map_map] at hshown
  rw [← List.map_id (List.map Bundles.shown _)]
  exact hshown.symm

/-! ### The declarations of one entry -/

section Claiming
variable {r : Routing} {type : AssetType} {entry : String} {done ds new : List Declaration} {bundles : Bundles}

/-- A value declares the bundles that are read from it. -/
theorem shown_ofValue {key : List String} {v : Value} (type : AssetType) (entry : String)
    (h : Bundles.ofValue key v = .ok bundles) :
    bundles.map Bundles.shown = (Declaration.ofValue type entry v).map Declaration.shown := by
  cases v with
  | string output =>
    cases h
    rfl
  | mapping outputs =>
    rw [Declaration.ofValue, List.map_map]
    refine map_eq_of_mapM_eq_ok (fun o _ b hb => ?_) h
    obtain ⟨p, hp, hb⟩ := bind_eq_ok.mp hb
    cases hb
    show (o.1, some (Matcher.pattern p)) = (o.1, (o.2.toPattern []).toOption.map Matcher.pattern)
    rw [Value.toPattern_of_key [] hp]
    rfl
  | _ => cases h

theorem keys_of_shown (hb : bundles.map Bundles.shown = ds.map Declaration.shown) :
    Entries.keys bundles = ds.map Declaration.output := by
  have hkeys := congrArg (List.map Prod.fst) hb
  rw [List.map_map, List.map_map] at hkeys
  exact hkeys

/-- What is kept of a batch are the declarations that are new among the firsts. -/
theorem exists_new (hr : r.outputPaths = (Declaration.firsts done).map (·.output))
    (hb : bundles.map Bundles.shown = ds.map Declaration.shown) :
    ∃ new, Declaration.firsts (done ++ ds) = Declaration.firsts done ++ new ∧
      (bundles.claim r.outputPaths).1.map Bundles.shown = new.map Declaration.shown ∧ ∀ d ∈ new, d ∈ ds := by
  refine ⟨_, firstsBy_append done ds, ?_, fun d hd => ?_⟩
  · have key : ∀ d : Declaration, d.shown.1 = d.output := fun d => rfl
    have taken : ∀ output, output ∈ r.outputPaths ↔ output ∈ done.map Declaration.output := fun output => by
      rw [hr]
      exact mem_map_firstsBy
    have filtered : ∀ {α : Type} (f : α → String × Option Matcher) (as : List α),
        (as.filter fun a => (f a).1 ∉ done.map Declaration.output).map f =
          (as.map f).filter fun b => b.1 ∉ done.map Declaration.output := fun f as => by
      rw [List.filter_map]
      rfl
    calc (bundles.claim r.outputPaths).1.map Bundles.shown
      _ = ((firstsBy Prod.fst bundles).filter fun b => b.1 ∉ done.map Declaration.output).map Bundles.shown := by
        rw [Bundles.claim_fst]
        simp only [taken]
      _ = (firstsBy Prod.fst (bundles.map Bundles.shown)).filter fun b => b.1 ∉ done.map Declaration.output := by
        rw [← map_firstsBy (f := Bundles.shown) (fun b => rfl) bundles]
        exact filtered Bundles.shown _
      _ = ((firstsBy Declaration.output ds).filter fun d => d.output ∉ done.map Declaration.output).map
          Declaration.shown := by
        rw [hb, ← map_firstsBy key ds]
        exact (filtered Declaration.shown _).symm
  · exact (firstsBy_sublist ds).subset (List.mem_filter.mp hd).1

theorem Holds.claimed_nil (h : r.Holds (Declaration.firsts done)) (hb : bundles.map Bundles.shown = ds.map Declaration.shown)
    (hnil : (bundles.claim r.outputPaths).1 = []) : r.Holds (Declaration.firsts (done ++ ds)) := by
  obtain ⟨new, hnew, hkept, -⟩ := exists_new h.outputPaths hb
  rw [hnil] at hkept
  obtain rfl := List.map_eq_nil_iff.mp hkept.symm
  rw [hnew, List.append_nil]
  exact h

/-- The outputs of an entry that is new for its asset type. -/
theorem Holds.withEntry (h : r.Holds (Declaration.firsts done))
    (hb : bundles.map Bundles.shown = ds.map Declaration.shown) (hplace : ∀ d ∈ ds, d.type = type ∧ d.entry = entry)
    (hfresh : r.entryBundles? type entry = none) (helpers : List String) :
    (r.withEntry type entry (bundles.claim r.outputPaths).1 helpers).Holds (Declaration.firsts (done ++ ds)) := by
  obtain ⟨new, hnew, hkept, hsub⟩ := exists_new h.outputPaths hb
  generalize (bundles.claim r.outputPaths).1 = kept at hkept ⊢
  have hrow : kept.map (fun b => (entry, Bundles.shown b)) = new.map Declaration.row := by
    calc kept.map (fun b => (entry, Bundles.shown b))
      _ = (kept.map Bundles.shown).map (entry, ·) := by rw [List.map_map]; rfl
      _ = (new.map Declaration.shown).map (entry, ·) := by rw [hkept]
      _ = new.map Declaration.row := by
        rw [List.map_map]
        apply List.map_congr_left
        intro d hd
        show (entry, d.shown) = (d.entry, d.shown)
        rw [(hplace d (hsub d hd)).2]
  refine ⟨?_, fun type' => ?_, h.types.insert _ _, fun type' => ?_, fun type' e he => ?_⟩
  · show r.outputPaths ++ Entries.keys kept = _
    rw [hnew, List.map_append, h.outputPaths, keys_of_shown hkept]
  · rw [rows_withEntry hfresh, hrow, hnew, List.filter_append, List.map_append, h.rows]
    congr 1
    split
    · rename_i ht
      rw [List.filter_eq_self.mpr fun d hd => by simp [(hplace d (hsub d hd)).1, ht]]
    · rename_i ht
      rw [List.filter_eq_nil_iff.mpr fun d hd => by simp [(hplace d (hsub d hd)).1, ht]]
      rfl
  -- The entry is new for its asset type, so no entry stands there twice.
  · rw [entries?_withEntry hfresh]
    split
    · rename_i ht
      obtain ⟨rfl, -⟩ := ht
      rw [entryBundles?_eq] at hfresh
      rw [← Entries.insert_of_get?_eq_none hfresh]
      exact (h.entries type).insert _ _
    · rw [List.append_nil]
      exact h.entries type'
  · rw [entries?_withEntry hfresh] at he
    rcases List.mem_append.mp he with he | he
    · exact h.nonempty type' e he
    · split at he
      · rename_i ht
        obtain rfl := List.mem_singleton.mp he
        exact ht.2
      · cases he

end Claiming
end Routing
end AssetPlan
