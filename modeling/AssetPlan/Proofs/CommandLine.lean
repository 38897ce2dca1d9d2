import AssetPlan.CommandLine
import AssetPlan.Proofs.Resolution.Keyed
import AssetPlan.Proofs.Source

/-! # Exit codes

The exit code tells a configuration that could not be loaded from one that is not valid. A path chooses a file or
none, and a chosen file is loaded or not: that decides between 2 and the other codes. What was loaded fails over its
content only, so its resolution decides between 1 and 0. -/

namespace AssetPlan.CommandLine
open Source (parse_eq_ok load_of_read load_eq_ok isLoadError_of_load)
variable {files : FileSystem} {path file : String} {v : Value}
  {processName : Option String} {command command' : Command} {a : Arguments} {arguments arguments' : List String}

/-! ### Files that are loaded -/

/-- The file that is read for a path: the path itself if it is named like a configuration file, else the first
    candidate that is a file. -/
inductive Chosen (files : FileSystem) (path : String) : String → Prop
  | named (h : (Format.ofPath? path).isSome = true) : Chosen files path path
  | found {file : String} (h : (Format.ofPath? path).isSome = false)
    (hfile : (Source.candidates path).find? files.isFile = some file) : Chosen files path file

/-- The value that is loaded for a path, and the file that holds it. -/
structure Loads (files : FileSystem) (path file : String) (v : Value) : Prop where
  chosen : Chosen files path file
  parsed : ∃ bytes text format, files.read file = .ok bytes ∧ textOfBytes? bytes = some text ∧
    Format.ofPath? file = some format ∧ format.read? text = some v

/-- Why nothing is loaded for a path. -/
inductive Unloadable (files : FileSystem) (path : String) : Prop
  | nowhere (h : (Format.ofPath? path).isSome = false) (hnone : ∀ file ∈ Source.candidates path, files.isFile file = false)
  | unreadable {file : String} {fault : ReadFault} (h : Chosen files path file) (hread : files.read file = .error fault)
  | encoding {file : String} {bytes : List UInt8} (h : Chosen files path file) (hread : files.read file = .ok bytes)
    (htext : textOfBytes? bytes = none)
  | extension {file : String} (h : Chosen files path file) (hformat : Format.ofPath? file = none)
  | malformed {file text : String} {bytes : List UInt8} {format : Format} (h : Chosen files path file)
    (hread : files.read file = .ok bytes) (htext : textOfBytes? bytes = some text)
    (hformat : Format.ofPath? file = some format) (hparse : format.read? text = none)

theorem exists_chosen (files : FileSystem) (path : String) : (∃ file, Chosen files path file) ∨
    (Format.ofPath? path).isSome = false ∧ ∀ file ∈ Source.candidates path, files.isFile file = false := by
  cases hnamed : (Format.ofPath? path).isSome with
  | true => exact .inl ⟨path, .named hnamed⟩
  | false =>
    cases hfile : (Source.candidates path).find? files.isFile with
    | some file => exact .inl ⟨file, .found hnamed hfile⟩
    | none =>
      refine .inr ⟨rfl, fun file hmem => ?_⟩
      simpa using List.find?_eq_none.mp hfile file hmem

theorem loads_or_unloadable (files : FileSystem) (path : String) :
    (∃ file v, Loads files path file v) ∨ Unloadable files path := by
  rcases exists_chosen files path with ⟨file, hchosen⟩ | ⟨hnamed, hnone⟩
  · cases hread : files.read file with
    | error fault => exact .inr (.unreadable hchosen hread)
    | ok bytes =>
      cases htext : textOfBytes? bytes with
      | none => exact .inr (.encoding hchosen hread htext)
      | some text =>
        cases hformat : Format.ofPath? file with
        | none => exact .inr (.extension hchosen hformat)
        | some format =>
          cases hv : format.read? text with
          | none => exact .inr (.malformed hchosen hread htext hformat hv)
          | some v => exact .inl ⟨file, v, hchosen, bytes, text, format, hread, htext, hformat, hv⟩
  · exact .inr (.nowhere hnamed hnone)

/-! ### Resolutions of files -/

theorem Chosen.resolution_eq (h : Chosen files a.configPath file) :
    resolution files processName a = Resolution.ofFile files file (a.options processName) := by
  unfold resolution
  cases h with
  | named h => rw [if_pos h]
  | found h hfile =>
    rw [if_neg (by simp [h])]
    unfold Resolution.ofProject Source.locate
    rw [hfile]
    rfl

theorem Chosen.resolution_fails (h : Chosen files a.configPath file) (hload : ∀ loaded, Source.load files file ≠ .ok loaded) :
    ∃ e, resolution files processName a = .error e ∧ e.isLoadError = true := by
  rw [h.resolution_eq]
  unfold Resolution.ofFile
  cases hl : Source.load files file with
  | ok loaded => exact absurd hl (hload loaded)
  | error e => exact ⟨e, rfl, isLoadError_of_load hl⟩

/-- Where nothing is loaded a resolution fails with a load error. -/
theorem Unloadable.resolution_fails (processName : Option String) (h : Unloadable files a.configPath) :
    ∃ e, resolution files processName a = .error e ∧ e.isLoadError = true := by
  cases h with
  | nowhere hnamed hnone =>
    refine ⟨.notFound (Source.candidates a.configPath), ?_, rfl⟩
    have hfile : (Source.candidates a.configPath).find? files.isFile = none :=
      List.find?_eq_none.mpr fun file hmem => by simp [hnone file hmem]
    unfold resolution Resolution.ofProject Source.locate
    rw [hnamed, hfile]
    rfl
  -- A file was chosen. Were it loaded, it would have come past the stage at which it fails.
  | unreadable h hread =>
    refine h.resolution_fails fun loaded hload => ?_
    obtain ⟨bytes, _, _, hread', -⟩ := load_eq_ok hload
    cases hread.symm.trans hread'
  | encoding h hread htext =>
    refine h.resolution_fails fun loaded hload => ?_
    obtain ⟨_, _, _, hread', htext', -⟩ := load_eq_ok hload
    cases hread.symm.trans hread'
    cases htext.symm.trans htext'
  | extension h hformat =>
    refine h.resolution_fails fun loaded hload => ?_
    obtain ⟨_, _, _, -, -, hformat', -⟩ := load_eq_ok hload
    cases hformat.symm.trans hformat'
  | malformed h hread htext hformat hparse =>
    refine h.resolution_fails fun loaded hload => ?_
    obtain ⟨_, _, _, hread', htext', hformat', hparse'⟩ := load_eq_ok hload
    cases hread.symm.trans hread'
    cases htext.symm.trans htext'
    cases hformat.symm.trans hformat'
    cases hparse.symm.trans hparse'

/-- A loaded tree is resolved with the built-in defaults, and its source is added. -/
theorem Loads.resolution_eq (processName : Option String) (h : Loads files a.configPath file v) :
    ∃ source, resolution files processName a =
      (Resolution.ofTree {} (Resolution.withLoadedPath (a.options processName) file) v).map
        fun r => { r with source := some source } := by
  obtain ⟨hchosen, bytes, text, format, hread, htext, hformat, hv⟩ := h
  refine ⟨⟨file, Digest.ofBytes bytes⟩, ?_⟩
  rw [hchosen.resolution_eq]
  unfold Resolution.ofFile
  rw [load_of_read hread, parse_eq_ok.mpr ⟨text, format, htext, hformat, hv⟩]
  show (Resolution.ofTree {} (Resolution.withLoadedPath (a.options processName) file) v >>= _) = _
  cases Resolution.ofTree {} (Resolution.withLoadedPath (a.options processName) file) v <;> rfl

/-! ### Outcomes -/

/-- A configuration is loaded, and its resolution fails. -/
def Refused (files : FileSystem) (processName : Option String) (a : Arguments) : Prop :=
  ∃ file v e, Loads files a.configPath file v ∧
    Resolution.ofTree {} (Resolution.withLoadedPath (a.options processName) file) v = .error e

/-- A configuration is loaded and resolved. -/
def Resolved (files : FileSystem) (processName : Option String) (a : Arguments) : Prop :=
  ∃ file v r, Loads files a.configPath file v ∧
    Resolution.ofTree {} (Resolution.withLoadedPath (a.options processName) file) v = .ok r

theorem unloadable_or (files : FileSystem) (processName : Option String) (a : Arguments) :
    Unloadable files a.configPath ∨ Refused files processName a ∨ Resolved files processName a := by
  rcases loads_or_unloadable files a.configPath with ⟨file, v, h⟩ | h
  · cases hr : Resolution.ofTree {} (Resolution.withLoadedPath (a.options processName) file) v with
    | error e => exact .inr (.inl ⟨file, v, e, h, hr⟩)
    | ok r => exact .inr (.inr ⟨file, v, r, h, hr⟩)
  · exact .inl h

/-- The outcome of a command is that of its resolution. -/
theorem run_eq (h : Command.ofArguments arguments = .ok (command, a)) : run files processName arguments =
    match resolution files processName a with
    | .ok r => succeeded command r
    | .error e => failed e := by
  cases hr : resolution files processName a <;> simp only [run, h, hr]

theorem exitCode_succeeded (command : Command) (r : Resolution) : (succeeded command r).exitCode = 0 := by
  cases command <;> rfl

theorem error_succeeded (command : Command) (r : Resolution) : (succeeded command r).error = none := by
  cases command <;> rfl

section
variable (h : Command.ofArguments arguments = .ok (command, a))
include h

theorem exitCode_of_unloadable (hu : Unloadable files a.configPath) : (run files processName arguments).exitCode = 2 := by
  obtain ⟨e, he, hload⟩ := hu.resolution_fails processName
  rw [run_eq h, he]
  exact if_pos hload

theorem exitCode_of_refused (hr : Refused files processName a) : (run files processName arguments).exitCode = 1 := by
  obtain ⟨file, v, e, hloads, he⟩ := hr
  obtain ⟨source, hsource⟩ := hloads.resolution_eq processName
  rw [run_eq h, hsource, he]
  have hcontent := Resolution.isLoadError_of_ofTree he
  exact if_neg (by simp [hcontent])

theorem exitCode_of_resolved (hr : Resolved files processName a) : (run files processName arguments).exitCode = 0 := by
  obtain ⟨file, v, r, hloads, hr⟩ := hr
  obtain ⟨source, hsource⟩ := hloads.resolution_eq processName
  rw [run_eq h, hsource, hr]
  exact exitCode_succeeded command _

/-- A run that fails prints nothing but its error. -/
theorem output_of_exitCode (hexit : (run files processName arguments).exitCode ≠ 0) :
    (run files processName arguments).output = [] := by
  rw [run_eq h] at hexit ⊢
  cases hr : resolution files processName a with
  | error e => rfl
  | ok r =>
    rw [hr] at hexit
    exact absurd (exitCode_succeeded command r) hexit

end

/-- Exit codes separate what cannot be loaded from what is not valid. Both commands exit alike with the same error. The
    code is 2 just where nothing is loaded, 1 just where what is loaded is refused, and otherwise 0. A failed run
    prints no output, and no resolution of a tree, with whatever options and defaults, fails with a load error. -/
theorem run_separates_faults (files : FileSystem) (processName : Option String)
    (h : Command.ofArguments arguments = .ok (command, a)) (h' : Command.ofArguments arguments' = .ok (command', a)) :
    (run files processName arguments).exitCode = (run files processName arguments').exitCode ∧
    (run files processName arguments).error = (run files processName arguments').error ∧
    ((run files processName arguments).exitCode = 2 ↔ Unloadable files a.configPath) ∧
    ((run files processName arguments).exitCode = 1 ↔ Refused files processName a) ∧
    ((run files processName arguments).exitCode = 0 ↔ ¬ Unloadable files a.configPath ∧ ¬ Refused files processName a) ∧
    ((run files processName arguments).exitCode ≠ 0 → (run files processName arguments).output = []) ∧
    ∀ d o tree e, Resolution.ofTree d o tree = .error e → e.isLoadError = false := by
  have hunloadable : Unloadable files a.configPath → (run files processName arguments).exitCode = 2 :=
    exitCode_of_unloadable h
  have hrefused : Refused files processName a → (run files processName arguments).exitCode = 1 := exitCode_of_refused h
  have hresolved : Resolved files processName a → (run files processName arguments).exitCode = 0 := exitCode_of_resolved h
  -- One of three things happens, and each has a code of its own, so a code tells which it was.
  have hcases := unloadable_or files processName a
  refine ⟨?_, ?_, ⟨?_, hunloadable⟩, ⟨?_, hrefused⟩, ⟨?_, ?_⟩, output_of_exitCode h,
    fun d o tree e he => Resolution.isLoadError_of_ofTree he⟩
  · rw [run_eq h, run_eq h']
    cases resolution files processName a with
    | ok r => exact (exitCode_succeeded command r).trans (exitCode_succeeded command' r).symm
    | error e => rfl
  · rw [run_eq h, run_eq h']
    cases resolution files processName a with
    | ok r => exact (error_succeeded command r).trans (error_succeeded command' r).symm
    | error e => rfl
  · intro hexit
    rcases hcases with hu | hr | hr
    · exact hu
    · cases hexit.symm.trans (hrefused hr)
    · cases hexit.symm.trans (hresolved hr)
  · intro hexit
    rcases hcases with hu | hr | hr
    · cases hexit.symm.trans (hunloadable hu)
    · exact hr
    · cases hexit.symm.trans (hresolved hr)
  · intro hexit
    constructor
    · intro hu
      cases hexit.symm.trans (hunloadable hu)
    · intro hr
      cases hexit.symm.trans (hrefused hr)
  · rintro ⟨hu, hr⟩
    exact hresolved ((hcases.resolve_left hu).resolve_left hr)

/-- Two files: one holds an empty list, the other a project without files. -/
def twoConfigs : FileSystem where
  isFile path := path = "list.json" ∨ path = "app.json"
  read path :=
    if path = "list.json" then .ok [91, 93]
    else if path = "app.json" then .ok [123, 34, 102, 105, 108, 101, 115, 34, 58, 123, 125, 125]
    else .error .missing

theorem loads_list : Loads twoConfigs "list.json" "list.json" (.list []) :=
  ⟨.named (by decide +kernel), _, "[]", .json, rfl, by decide +kernel, by decide +kernel, rfl⟩

theorem resolved_app : Resolved twoConfigs none { config := some "app.json" } := by
  have hread : (Format.read? .json "\x7b\"files\":\x7b\x7d\x7d").any (fun v => (Resolution.ofTree {} (Resolution.withLoadedPath
      (Arguments.options { config := some "app.json" } none) "app.json") v).isOk) = true := by decide +kernel
  obtain ⟨v, hv, hok⟩ := (Option.any_eq_true _ _).mp hread
  obtain ⟨r, hr⟩ := exists_ok_of_isOk hok
  exact ⟨_, v, r, ⟨.named (by decide +kernel), _, _, .json, rfl, by decide +kernel, by decide +kernel, hv⟩, hr⟩

/-- Without an option nothing is found, the list is refused by both commands, and the project is resolved. -/
theorem run_separates_faults_twoConfigs :
    (run twoConfigs none ["resolve"]).exitCode = 2 ∧ (run twoConfigs none ["resolve"]).output = [] ∧
    (run twoConfigs none ["check", "-c", "list.json"]).exitCode = 1 ∧
    (run twoConfigs none ["resolve", "-c", "list.json"]).exitCode = 1 ∧
    (run twoConfigs none ["check", "-c", "app.json"]).exitCode = 0 ∧ ¬ Unloadable twoConfigs "app.json" := by
  obtain ⟨-, -, hnowhere, -, -, hsilent, -⟩ := run_separates_faults twoConfigs none
    (rfl : Command.ofArguments ["resolve"] = .ok (.resolve, {})) (rfl : Command.ofArguments ["check"] = .ok (.check, {}))
  obtain ⟨hsame, -, -, hlist, -⟩ := run_separates_faults twoConfigs none
    (rfl : Command.ofArguments ["check", "-c", "list.json"] = .ok (.check, { config := some "list.json" }))
    (rfl : Command.ofArguments ["resolve", "-c", "list.json"] = .ok (.resolve, { config := some "list.json" }))
  have happ : Command.ofArguments ["check", "-c", "app.json"] = .ok (.check, { config := some "app.json" }) := rfl
  obtain ⟨-, -, -, -, hsound, -⟩ := run_separates_faults twoConfigs none happ happ
  have hmissing := hnowhere.mpr (.nowhere (by decide +kernel) (by decide +kernel))
  have hrefused := hlist.mpr ⟨_, _, _, loads_list, rfl⟩
  have hresolved := exitCode_of_resolved happ resolved_app
  refine ⟨hmissing, hsilent ?_, hrefused, hsame.symm.trans hrefused, hresolved, (hsound.mp hresolved).1⟩
  rw [hmissing]
  decide

end AssetPlan.CommandLine
