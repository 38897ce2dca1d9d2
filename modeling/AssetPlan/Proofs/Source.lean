import AssetPlan.FileSystem.Tree
import AssetPlan.Proofs.Configuration.Paths
import AssetPlan.Proofs.FilePath
import AssetPlan.Proofs.Toml
import AssetPlan.Proofs.Traversal
import AssetPlan.Source

/-! # Files that are found and loaded

A file that is loaded can be read, is text, and is written in the format that its extension names; the tree that it writes
has no key twice. A path that names no format stands for the candidates in its place. For a path without extension they
are the files that a finished configuration lists for it, and for one with another extension they never are
(`locate_of_base`). -/

namespace AssetPlan

namespace Format
variable {path stem : String} {f : Format}

theorem ofPath?_eq_some_iff : ofPath? path = some f ↔ FilePath.extension? path = some f.extension := by
  constructor
  · intro h
    obtain ⟨extension, hextension, hfound⟩ := Option.bind_eq_some_iff.mp h
    have hsame := List.find?_some hfound
    rw [hextension, beq_iff_eq.mp hsame]
  · intro h
    unfold ofPath?
    rw [h]
    cases f <;> rfl

/-- A text in any format writes a tree without a key twice. -/
theorem wellKeyed_of_read? {text : String} {v : Value} (h : f.read? text = some v) : v.WellKeyed := by
  cases f with
  | toml =>
    obtain ⟨j, hj, rfl⟩ := Option.map_eq_some_iff.mp h
    exact (Toml.wellKeyed_of_ofText? hj).ofJson
  | json =>
    obtain ⟨j, hj, rfl⟩ := Option.map_eq_some_iff.mp h
    exact (Json.wellKeyed_of_ofText? hj).ofJson

/-- A path that names a format and ends in its name ends in the extension of the format. -/
theorem exists_ending_of_ofPath? (h : ofPath? path = some f) (hend : FilePath.endsInName path.toList = true) :
    ∃ before, path.toList = before ++ '.' :: f.extension.toList := by
  have hextension := ofPath?_eq_some_iff.mp h
  obtain ⟨⟨before, name⟩, hsplit, -⟩ := Option.bind_eq_some_iff.mp hextension
  have hnamed := FilePath.isNamed_of_splitName? hsplit hend
  obtain ⟨stem, hname, -⟩ := (FilePath.extension?_eq_some_iff hnamed).mp hextension
  refine ⟨before.flatMap (· ++ ['/']) ++ stem, ?_⟩
  rw [hnamed.text_eq, hname, List.append_assoc]

end Format

namespace Source
variable {files : FileSystem} {path base : String} {bytes : List UInt8} {v : Value} {loaded : Loaded} {fault : ReadFault}
  {e : ConfigError} {directory name : List Char}

/-! ### Loading -/

theorem parse_eq_ok : parse path bytes = .ok v ↔
    ∃ text format, textOfBytes? bytes = some text ∧ Format.ofPath? path = some format ∧ format.read? text = some v := by
  constructor
  · intro h
    unfold parse at h
    cases htext : textOfBytes? bytes with
    | none => simp [htext] at h
    | some text =>
      cases hformat : Format.ofPath? path with
      | none => simp [htext, hformat] at h
      | some format =>
        cases hv : format.read? text with
        | none => simp [htext, hformat, hv] at h
        | some v' =>
          simp only [htext, hformat, hv, Except.ok.injEq] at h
          exact ⟨text, format, rfl, rfl, h ▸ hv⟩
  · rintro ⟨text, format, htext, hformat, hv⟩
    simp only [parse, htext, hformat, hv]

theorem isLoadError_of_parse (h : parse path bytes = .error e) : e.isLoadError = true := by
  unfold parse at h
  split at h
  · cases h
    rfl
  · split at h
    · cases h
      rfl
    · split at h
      · cases h
        rfl
      · cases h

theorem load_of_read (h : files.read path = .ok bytes) :
    load files path = (parse path bytes).map fun v => ⟨v, ⟨path, Digest.ofBytes bytes⟩⟩ := by
  unfold load
  rw [h]

theorem load_of_fault (h : files.read path = .error fault) :
    load files path = .error (.unreadable path fault) := by
  unfold load
  rw [h]

theorem isLoadError_of_load (h : load files path = .error e) : e.isLoadError = true := by
  cases hread : files.read path with
  | error fault =>
    rw [load_of_fault hread] at h
    cases h
    rfl
  | ok bytes =>
    rw [load_of_read hread] at h
    exact isLoadError_of_parse (map_eq_error.mp h)

theorem load_eq_ok (h : load files path = .ok loaded) : ∃ bytes text format,
    files.read path = .ok bytes ∧ textOfBytes? bytes = some text ∧ Format.ofPath? path = some format ∧
      format.read? text = some loaded.value := by
  cases hread : files.read path with
  | error fault =>
    rw [load_of_fault hread] at h
    cases h
  | ok bytes =>
    rw [load_of_read hread] at h
    obtain ⟨v, hparse, rfl⟩ := map_eq_ok.mp h
    obtain ⟨text, format, hparsed⟩ := parse_eq_ok.mp hparse
    exact ⟨bytes, text, format, rfl, hparsed⟩

theorem path_of_load (h : load files path = .ok loaded) : loaded.source.path = path := by
  obtain ⟨bytes, -, -, hread, -⟩ := load_eq_ok h
  rw [load_of_read hread] at h
  obtain ⟨v, -, rfl⟩ := map_eq_ok.mp h
  rfl

/-- No mapping of a tree that is read from a file has a key twice. -/
theorem wellKeyed_of_load (h : load files path = .ok loaded) : loaded.value.WellKeyed := by
  obtain ⟨bytes, text, format, -, -, -, hread⟩ := load_eq_ok h
  exact Format.wellKeyed_of_read? hread

/-! ### Finding -/

theorem candidates_eq (base : String) :
    candidates base = [FilePath.withExtension base "toml", FilePath.withExtension base "json"] := rfl

theorem candidates_of_none (h : FilePath.IsNamed base.toList directory name) (hnone : FilePath.extension? base = none) :
    candidates base = [base ++ ".toml", base ++ ".json"] := by
  rw [candidates_eq, FilePath.withExtension_of_none h hnone, FilePath.withExtension_of_none h hnone, String.append_assoc,
    String.append_assoc]
  rfl

theorem length_lt_of_mem_candidates (h : FilePath.IsNamed base.toList directory name)
    (hsome : FilePath.extension? base ≠ none) (hmem : path ∈ candidates base) : path.length < base.length + 5 := by
  obtain ⟨old, hold⟩ := Option.ne_none_iff_exists'.mp hsome
  rw [candidates_eq, List.mem_cons, List.mem_singleton] at hmem
  rcases hmem with rfl | rfl
  · exact FilePath.length_withExtension_lt h hold "toml"
  · exact FilePath.length_withExtension_lt h hold "json"

theorem locate_of_candidates {first second : String} (h : candidates base = [first, second]) : locate files base =
    if files.isFile first then .ok first else if files.isFile second then .ok second else .error (.notFound [first, second]) := by
  unfold locate
  rw [h, List.find?_cons, List.find?_cons]
  cases files.isFile first <;> cases files.isFile second <;> rfl

/-! ### Names that are found and names that are listed -/

/-- A path without the ending of a format is its own stem, unless nothing but that ending is its name. -/
theorem stem_of_unnamed {p : Paths} (hconfig : p.config = base) (h : FilePath.IsNamed base.toList directory name)
    (hformat : Format.ofPath? base = none) (hname : ∀ f : Format, name ≠ '.' :: f.extension.toList) : p.stem = base := by
  rw [← hconfig]
  refine Paths.stem_of_other fun f before hending => ?_
  rw [hconfig] at hending
  have hslash : '/' ∉ f.extension.toList := by cases f <;> decide
  obtain ⟨stem, -, hstem⟩ := FilePath.exists_stem_of_ending h hending hslash
  by_cases hnil : stem = []
  · exact hname f (by rw [hstem, hnil, List.nil_append])
  · have hdot : '.' ∉ f.extension.toList := by cases f <;> decide
    have hextension := (FilePath.extension?_eq_some_iff h).mpr ⟨stem, hstem, hnil, hdot⟩
    rw [Format.ofPath?_eq_some_iff.mpr hextension] at hformat
    cases hformat

/-- The locator and a finished configuration name the same two files for a path that ends in a name without extension,
    except that a configuration takes the name `.toml` or `.json` for an extension without a name. For a path with
    an extension that is none of a format a configuration lists the path with `.toml` and `.json` behind it, and
    none of the files that are looked for is one of these. -/
theorem locate_of_base (h : FilePath.IsNamed base.toList directory name) (hformat : Format.ofPath? base = none) :
    (FilePath.extension? base = none → ∀ files : FileSystem, locate files base =
      if files.isFile (base ++ ".toml") then .ok (base ++ ".toml")
      else if files.isFile (base ++ ".json") then .ok (base ++ ".json")
      else .error (.notFound [base ++ ".toml", base ++ ".json"])) ∧
    (FilePath.extension? base ≠ none →
      ∀ path ∈ candidates base, path ≠ base ++ ".toml" ∧ path ≠ base ++ ".json") ∧
    ∀ p : Paths, p.config = base →
      ((∀ f : Format, name ≠ '.' :: f.extension.toList) →
        p.possibleConfigFiles = [base ++ ".toml", base ++ ".json"]) ∧
      ∀ f : Format, name = '.' :: f.extension.toList →
        p.possibleConfigFiles = [String.ofList directory ++ ".toml", String.ofList directory ++ ".json"] := by
  refine ⟨fun hnone files => locate_of_candidates (candidates_of_none h hnone), fun hsome path hmem => ?_,
    fun p hconfig => ⟨fun hname => ?_, fun f hname => ?_⟩⟩
  · have hlength := length_lt_of_mem_candidates h hsome hmem
    constructor
    · rintro rfl
      exact absurd (String.length_append (s := base) (t := ".toml")) (Nat.ne_of_lt hlength)
    · rintro rfl
      exact absurd (String.length_append (s := base) (t := ".json")) (Nat.ne_of_lt hlength)
  · rw [Paths.possibleConfigFiles_eq, stem_of_unnamed hconfig h hformat hname]
  · have hending : p.config.toList = directory ++ '.' :: f.extension.toList := by rw [hconfig, h.text_eq, hname]
    rw [Paths.possibleConfigFiles_eq, Paths.stem_of_config hending]

/-- A configuration in a directory. -/
def stagedFiles : FileTree :=
  (FileTree.empty.withFile "conf/build.json" []).withFile "build.prod.toml" []

/-- A path without extension in a directory: only the second candidate is a file. -/
theorem locate_of_base_staged : FilePath.IsNamed "conf/build".toList "conf/".toList "build".toList ∧
    Format.ofPath? "conf/build" = none ∧ locate stagedFiles.fileSystem "conf/build" = .ok "conf/build.json" := by
  have h : FilePath.IsNamed "conf/build".toList "conf/".toList "build".toList :=
    ⟨by decide, .inr ⟨"conf".toList, by decide⟩, by decide, by decide⟩
  have hformat : Format.ofPath? "conf/build" = none := by decide +kernel
  obtain ⟨hlocate, -, -⟩ := locate_of_base h hformat
  refine ⟨h, hformat, (hlocate (by decide +kernel) stagedFiles.fileSystem).trans ?_⟩
  have hfirst : stagedFiles.fileSystem.isFile ("conf/build" ++ ".toml") = false := by decide +kernel
  have hsecond : stagedFiles.fileSystem.isFile ("conf/build" ++ ".json") = true := by decide +kernel
  rw [hfirst, hsecond]
  rfl

/-- A path with an extension of its own: the file that is listed for it exists and is not found. And a hidden name that
    is taken for an extension. -/
theorem locate_loses_extension :
    (¬ ∀ (files : FileSystem) base directory name, FilePath.IsNamed base.toList directory name →
      Format.ofPath? base = none → files.isFile (base ++ ".toml") = true → locate files base = .ok (base ++ ".toml")) ∧
    ¬ ∀ (p : Paths) directory name, FilePath.IsNamed p.config.toList directory name → Format.ofPath? p.config = none →
      p.possibleConfigFiles = [p.config ++ ".toml", p.config ++ ".json"] := by
  constructor
  · intro hall
    have hfound := hall stagedFiles.fileSystem "build.prod" [] "build.prod".toList
      ⟨by decide, .inl rfl, by decide, by decide⟩ (by decide +kernel) (by decide +kernel)
    have hlost : errorOf? (locate stagedFiles.fileSystem "build.prod") = some (.notFound ["build.toml", "build.json"]) := by
      decide +kernel
    rw [hfound] at hlost
    cases hlost
  · intro hall
    have hlisted := hall ⟨"", "", [], ".toml", "", ""⟩ [] ".toml".toList ⟨by decide, .inl rfl, by decide, by decide⟩
      (by decide +kernel)
    exact absurd hlisted (by decide +kernel)

end Source
end AssetPlan
