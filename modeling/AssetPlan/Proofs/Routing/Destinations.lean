import AssetPlan.Proofs.Routing.FirstDeclared
import AssetPlan.Proofs.Value.Leaves

/-! # Where a path goes

A path goes into the bundles of its asset type whose matchers accept it. A table that holds the first declarations of
all outputs gives for every path the outputs whose first declaration takes it, each with the entry of that
declaration. -/

namespace AssetPlan

namespace Declaration
variable {ds : List Declaration} {d : Declaration} {path output : String} {m : Matcher}

/-- The first declaration of an output path. -/
def firstOf? (ds : List Declaration) (output : String) : Option Declaration := ds.find? fun d => d.output = output

/-- Whether a declaration takes a path: it has no pattern, or one with a leaf that accepts the path. -/
def Takes (path : String) (d : Declaration) : Prop :=
  d.pattern = none ∨ ∃ v, d.pattern = some v ∧ ∃ leaf ∈ v.leaves, leaf.leafAccepts path = true

theorem mem_firsts_iff : d ∈ firsts ds ↔ firstOf? ds d.output = some d := mem_firstsBy_iff

theorem output_of_firstOf? (h : firstOf? ds output = some d) : d.output = output := by
  unfold firstOf? at h
  simpa using List.find?_some h

/-- The matcher of a declaration accepts what the declaration takes. -/
theorem accepts_iff_takes (h : d.matcher? = some m) : m.accepts path = true ↔ d.Takes path := by
  unfold matcher? at h
  unfold Takes
  cases hpattern : d.pattern with
  | none =>
    rw [hpattern] at h
    cases h
    simp [Matcher.accepts]
  | some v =>
    rw [hpattern] at h
    obtain ⟨p, hp, rfl⟩ := Option.map_eq_some_iff.mp h
    have hread : v.toPattern [] = .ok p := by
      cases hv : v.toPattern [] with
      | error e =>
        rw [hv] at hp
        cases hp
      | ok q =>
        rw [hv] at hp
        cases hp
        rfl
    simpa [Matcher.accepts] using Value.accepts_iff_exists_leaf hread

end Declaration

namespace Routing
open Declaration
variable {r : Routing} {ds : List Declaration} {d : Declaration} {type : AssetType} {path entry output : String}

/-- The bundles that take a path are found in the rows of its asset type. -/
theorem bundlesFor_eq_rows : r.bundlesFor type path =
    ((r.rows type).filter fun row => row.2.2.any (·.accepts path)).map fun row => (row.1, row.2.1) := by
  unfold bundlesFor rows
  simp only [List.filter_flatMap, List.map_flatMap, List.filter_map, List.map_map]
  rfl

namespace Holds

theorem bundlesFor (h : r.Holds ds) : r.bundlesFor type path =
    (ds.filter fun d => d.type = type ∧ d.matcher?.any (·.accepts path) = true).map fun d => (d.entry, d.output) := by
  rw [bundlesFor_eq_rows, h.rows, List.filter_map, List.filter_filter, List.map_map]
  congr 1
  refine List.filter_congr fun d _ => ?_
  simp [Declaration.row, Declaration.shown, Bool.and_comm]

/-- The pattern of a declaration that is held has been compiled. -/
theorem exists_matcher (h : r.Holds ds) (hd : d ∈ ds) : ∃ m, d.matcher? = some m := by
  have hrow : d.row ∈ r.rows d.type := by
    rw [h.rows]
    exact List.mem_map_of_mem (List.mem_filter.mpr ⟨hd, decide_eq_true rfl⟩)
  obtain ⟨e, -, hrow⟩ := List.mem_flatMap.mp hrow
  obtain ⟨b, -, hb⟩ := List.mem_map.mp hrow
  exact ⟨b.2, (congrArg (·.2.2) hb).symm⟩

theorem mem_bundlesFor_iff (h : r.Holds ds) : (entry, output) ∈ r.bundlesFor type path ↔
    ∃ d ∈ ds, d.output = output ∧ d.type = type ∧ d.entry = entry ∧ d.Takes path := by
  rw [h.bundlesFor]
  simp only [List.mem_map, List.mem_filter, decide_eq_true_eq, Prod.mk.injEq]
  constructor
  · rintro ⟨d, ⟨hd, htype, haccepts⟩, hentry, houtput⟩
    obtain ⟨m, hm⟩ := h.exists_matcher hd
    rw [hm] at haccepts
    exact ⟨d, hd, houtput, htype, hentry, (accepts_iff_takes hm).mp haccepts⟩
  · rintro ⟨d, hd, houtput, htype, hentry, htakes⟩
    obtain ⟨m, hm⟩ := h.exists_matcher hd
    refine ⟨d, ⟨hd, htype, ?_⟩, hentry, houtput⟩
    rw [hm]
    exact (accepts_iff_takes hm).mpr htakes

end Holds

/-- Compiling a `files` section sends every path to the outputs whose first declarations are for the asset type and
    take the path, each under the entry of that declaration. No output is listed twice for a path, and none is ever
    listed for two asset types. -/
theorem bundlesFor_ofFiles {files : Mapping} {watched : List String} (hw : (Value.mapping files).WellKeyed)
    (h : (Routing.ofFiles files watched).result = .ok r) (type : AssetType) (path : String) :
    (∀ entry output, (entry, output) ∈ r.bundlesFor type path ↔
      ∃ d, firstOf? (Declaration.ofFiles files) output = some d ∧ d.type = type ∧ d.entry = entry ∧ d.Takes path) ∧
    ((r.bundlesFor type path).map Prod.snd).Nodup ∧
    ∀ type' path' output, output ∈ (r.bundlesFor type path).map Prod.snd →
      output ∈ (r.bundlesFor type' path').map Prod.snd → type = type' := by
  have hr := ofFiles_holds hw h
  have hlisted : ∀ {type path entry output}, (entry, output) ∈ r.bundlesFor type path ↔
      ∃ d, firstOf? (Declaration.ofFiles files) output = some d ∧ d.type = type ∧ d.entry = entry ∧ d.Takes path := by
    intro type path entry output
    rw [hr.mem_bundlesFor_iff]
    constructor
    · rintro ⟨d, hd, rfl, hplace⟩
      exact ⟨d, mem_firsts_iff.mp hd, hplace⟩
    · rintro ⟨d, hd, hplace⟩
      obtain rfl := output_of_firstOf? hd
      exact ⟨d, mem_firsts_iff.mpr hd, rfl, hplace⟩
  refine ⟨fun entry output => hlisted, ?_, fun type' path' output hout hout' => ?_⟩
  · rw [hr.bundlesFor, List.map_map]
    exact (nodup_map_firstsBy _).sublist (List.filter_sublist.map _)
  · obtain ⟨⟨entry, _⟩, hmem, rfl⟩ := List.mem_map.mp hout
    obtain ⟨⟨entry', _⟩, hmem', rfl⟩ := List.mem_map.mp hout'
    obtain ⟨d, hd, rfl, -⟩ := hlisted.mp hmem
    obtain ⟨d', hd', rfl, -⟩ := hlisted.mp hmem'
    rw [hd] at hd'
    cases hd'
    rfl

/-- The style sheet of the contested sections belongs to the scripts: one leaf of its first pattern takes a file of
    the library, and no file goes there as a style sheet. -/
theorem bundlesFor_contestedFiles : ∃ r, (Routing.ofFiles contestedFiles ["app"]).result = .ok r ∧
    (Value.mapping contestedFiles).WellKeyed ∧ ("*", "style.css") ∈ r.bundlesFor .javascripts "lib/deep/a.css" ∧
    ∀ path entry, (entry, "style.css") ∉ r.bundlesFor .stylesheets path := by
  have hw : (Value.mapping contestedFiles).WellKeyed := by decide +kernel
  have hok : (Routing.ofFiles contestedFiles ["app"]).result.isOk = true := by decide +kernel
  obtain ⟨r, h⟩ := exists_ok_of_isOk hok
  have hfirst : firstOf? (Declaration.ofFiles contestedFiles) "style.css" =
      some ⟨.javascripts, "*", "style.css", some (.list [.string "vendor/*", .string "lib/**"])⟩ := by rfl
  refine ⟨r, h, hw, ?_, fun path entry hmem => ?_⟩
  · refine ((bundlesFor_ofFiles hw h _ _).1 _ _).mpr ⟨_, hfirst, rfl, rfl, .inr ⟨_, rfl, .string "lib/**", ?_, ?_⟩⟩
    · simp [Value.leaves, Value.allLeaves]
    · decide +kernel
  · obtain ⟨d, hd, htype, -⟩ := ((bundlesFor_ofFiles hw h _ _).1 _ _).mp hmem
    rw [hfirst] at hd
    cases hd
    cases htype

end Routing
end AssetPlan
