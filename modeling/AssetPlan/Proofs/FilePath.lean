import AssetPlan.FilePath
import AssetPlan.Proofs.Text

/-! # Paths that end in a name

A path is named by what stands behind its last slash, unless that is nothing, one dot or two (`IsNamed`). Its extension
is that of the name. A path without one gets an extension behind its text (`withExtension_of_none`); a path with one
loses it, so what comes out is shorter than that (`length_withExtension_lt`). -/

namespace AssetPlan.FilePath
variable {text directory name behind : List Char} {path extension : String}

/-- A path that ends in a file name: behind its last slash stands a text other than one or two dots. -/
structure IsNamed (text directory name : List Char) : Prop where
  text_eq : text = directory ++ name
  directory : directory = [] ∨ ∃ front, directory = front ++ ['/']
  name_ne : name ≠ [] ∧ name ≠ ['.'] ∧ name ≠ ['.', '.']
  no_slash : '/' ∉ name

/-! ### The name -/

theorem isStay_eq_false_iff : isStay name = false ↔ name ≠ [] ∧ name ≠ ['.'] := by simp [isStay]

theorem parts_of_isNamed (h : IsNamed text directory name) :
    ∃ before, parts text = before ++ [name] ∧ before.flatMap (· ++ ['/']) = directory := by
  obtain ⟨before, hparts⟩ : ∃ before, parts text = before ++ [name] := by
    have hname : parts name = [name] := Text.splitBy_of_none fun c hc => by
      refine beq_eq_false_iff_ne.mpr ?_
      rintro rfl
      exact h.no_slash hc
    obtain rfl := h.text_eq
    rcases h.directory with rfl | ⟨front, rfl⟩
    · exact ⟨[], hname⟩
    · refine ⟨parts front, ?_⟩
      have hsplit : parts (front ++ '/' :: name) = parts front ++ parts name := Text.splitBy_append rfl front name
      rw [List.append_assoc, List.singleton_append, hsplit, hname]
  have htext : Text.joinPieces '/' (parts text) = text := Text.joinPieces_splitBy '/' text
  rw [hparts, Text.joinPieces_concat, h.text_eq] at htext
  exact ⟨before, hparts, List.append_cancel_right htext⟩

theorem splitName?_of_isNamed (h : IsNamed text directory name) :
    ∃ before, splitName? text = some (before, name) ∧ before.flatMap (· ++ ['/']) = directory := by
  obtain ⟨before, hparts, hdirectory⟩ := parts_of_isNamed h
  have hstay : ¬ isStay name = true := Bool.eq_false_iff.mp (isStay_eq_false_iff.mpr ⟨h.name_ne.1, h.name_ne.2.1⟩)
  refine ⟨before, ?_, hdirectory⟩
  rw [splitName?, hparts, List.reverse_concat, List.dropWhile_cons_of_neg hstay]
  dsimp only
  rw [if_neg h.name_ne.2.2, List.reverse_reverse]

/-- A path with a file name that nothing follows ends in it. -/
theorem isNamed_of_splitName? {before : List (List Char)} (h : splitName? text = some (before, name))
    (hend : endsInName text = true) : IsNamed text (before.flatMap (· ++ ['/'])) name := by
  obtain hnil | ⟨front, last, hparts⟩ := List.eq_nil_or_concat (parts text)
  · exact absurd hnil (Text.splitBy_ne_nil _ _)
  rw [List.concat_eq_append] at hparts
  have hstay : isStay last = false := by simpa [endsInName, hparts] using hend
  have htext : Text.joinPieces '/' (parts text) = text := Text.joinPieces_splitBy '/' text
  have hslash : '/' ∉ last := fun hmem =>
    absurd (Text.not_isSeparator_of_mem_splitBy (show last ∈ parts text by simp [hparts]) '/' hmem) (by decide)
  rw [hparts, Text.joinPieces_concat] at htext
  rw [splitName?, hparts, List.reverse_concat, List.dropWhile_cons_of_neg (Bool.eq_false_iff.mp hstay)] at h
  dsimp only at h
  split at h
  · cases h
  · rename_i hdots
    cases h
    rw [List.reverse_reverse]
    obtain ⟨hempty, hdot⟩ := isStay_eq_false_iff.mp hstay
    refine ⟨htext.symm, ?_, ⟨hempty, hdot, hdots⟩, hslash⟩
    rcases List.eq_nil_or_concat front with rfl | ⟨outer, inner, rfl⟩
    · exact .inl rfl
    · exact .inr ⟨outer.flatMap (· ++ ['/']) ++ inner, by simp⟩

/-- What a path ends in without a slash, its name ends in. -/
theorem exists_stem_of_ending {before : List Char} (h : IsNamed text directory name) (heq : text = before ++ '.' :: behind)
    (hbehind : '/' ∉ behind) : ∃ stem, before = directory ++ stem ∧ name = stem ++ '.' :: behind := by
  rcases List.append_eq_append_iff.mp (h.text_eq.symm.trans heq) with ⟨stem, hbefore, hname⟩ | ⟨inner, hdirectory, hname⟩
  · exact ⟨stem, hbefore, hname⟩
  · rcases List.eq_nil_or_concat inner with rfl | ⟨rest, last, rfl⟩
    · exact ⟨[], by simpa using hdirectory.symm, hname.symm⟩
    · exfalso
      rw [List.concat_eq_append] at hdirectory hname
      -- The directory would end within the ending, and it ends in a slash.
      have hlast : last = '/' := by
        rcases h.directory with hnil | ⟨front, hfront⟩
        · simp [hnil] at hdirectory
        · rw [hfront, ← List.append_assoc] at hdirectory
          exact (List.singleton_inj.mp (List.append_inj_right' hdirectory rfl)).symm
      have hmem : '/' ∈ '.' :: behind := by simp [hname, hlast]
      rcases List.mem_cons.mp hmem with hdot | hmem
      · exact absurd hdot (by decide)
      · exact hbehind hmem

/-! ### The extension -/

theorem splitExtension_of_dot {stem : List Char} (hbehind : '.' ∉ behind) : splitExtension (stem ++ '.' :: behind) =
    if stem = [] then (stem ++ '.' :: behind, none) else (stem, some behind) := by
  rw [splitExtension, Text.takeWhile_last_separator hbehind, Text.dropWhile_last_separator hbehind, List.tail_cons,
    List.reverse_reverse, List.reverse_reverse]

theorem splitExtension_of_none (h : (splitExtension name).2 = none) : splitExtension name = (name, none) := by
  unfold splitExtension at h ⊢
  dsimp only at h ⊢
  split
  · rfl
  · rename_i hstem
    rw [if_neg hstem] at h
    cases h

/-- What follows the last dot of a name is its extension, unless the dot comes first. -/
theorem splitExtension_eq_some_iff :
    (splitExtension name).2 = some behind ↔ ∃ stem, name = stem ++ '.' :: behind ∧ stem ≠ [] ∧ '.' ∉ behind := by
  constructor
  · intro h
    by_cases hdot : '.' ∈ name
    · obtain ⟨stem, after, rfl, hafter⟩ := Text.exists_last_separator hdot
      rw [splitExtension_of_dot hafter] at h
      split at h
      · cases h
      · rename_i hstem
        cases h
        exact ⟨stem, rfl, hstem, hafter⟩
    · rw [splitExtension, Text.dropWhile_no_separator hdot] at h
      cases h
  · rintro ⟨stem, rfl, hstem, hbehind⟩
    rw [splitExtension_of_dot hbehind, if_neg hstem]

theorem extension?_of_isNamed (h : IsNamed path.toList directory name) :
    extension? path = (splitExtension name).2.map String.ofList := by
  obtain ⟨before, hsplit, -⟩ := splitName?_of_isNamed h
  unfold extension?
  rw [hsplit]
  rfl

theorem extension?_eq_some_iff (h : IsNamed path.toList directory name) : extension? path = some extension ↔
    ∃ stem, name = stem ++ '.' :: extension.toList ∧ stem ≠ [] ∧ '.' ∉ extension.toList := by
  rw [extension?_of_isNamed h, Option.map_eq_some_iff, ← splitExtension_eq_some_iff]
  constructor
  · rintro ⟨behind, hbehind, rfl⟩
    rwa [String.toList_ofList]
  · intro hbehind
    exact ⟨extension.toList, hbehind, String.ofList_toList⟩

/-- A path without extension gets one behind its text. -/
theorem withExtension_of_none (h : IsNamed path.toList directory name) (hnone : extension? path = none) (extension : String) :
    withExtension path extension = path ++ "." ++ extension := by
  rw [extension?_of_isNamed h, Option.map_eq_none_iff] at hnone
  obtain ⟨before, hsplit, hdirectory⟩ := splitName?_of_isNamed h
  rw [← String.toList_inj, withExtension, hsplit]
  dsimp only
  rw [splitExtension_of_none hnone, hdirectory]
  dsimp only
  rw [if_neg (by simp), ← h.text_eq]
  simp

/-- A path with an extension loses it. -/
theorem length_withExtension_lt (h : IsNamed path.toList directory name) {old : String} (hold : extension? path = some old)
    (extension : String) : (withExtension path extension).length < path.length + 1 + extension.length := by
  obtain ⟨stem, hname, hstem, hdot⟩ := (extension?_eq_some_iff h).mp hold
  obtain ⟨before, hsplit, hdirectory⟩ := splitName?_of_isNamed h
  have hpath := congrArg List.length h.text_eq
  rw [hname] at hpath
  unfold withExtension
  rw [hsplit]
  dsimp only
  rw [hname, splitExtension_of_dot hdot, if_neg hstem, hdirectory]
  simp only [List.length_append, List.length_cons, String.length_toList] at hpath
  split
  · rename_i hdots
    have hdot' : stem = ['.'] := hdots.1
    rw [hdot'] at hpath
    simp only [String.length_ofList, List.length_append, List.length_cons, List.length_nil] at hpath ⊢
    omega
  · simp only [String.length_ofList, List.length_append, List.length_cons, String.length_toList]
    omega

end AssetPlan.FilePath
