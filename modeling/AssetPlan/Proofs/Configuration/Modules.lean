import AssetPlan.Configuration.Modules
import AssetPlan.Proofs.Pattern.Literal
import AssetPlan.Proofs.Traversal

/-! # Cleaners of names

The cleaner of names takes its regular expression from a text, and so do patterns. Both take the source from between
the slashes, but only patterns read flags behind the last one. So a literal without flags means the same to both
(`cleanName_of_literal`), and one with flags is to a cleaner a source of its own, with slashes and flags in it. -/

namespace AssetPlan.Modules
open Pattern (IsLiteral)
variable {text source flags : List Char} {s : String} {r : Regex} {fields : Mapping}

theorem betweenSlashes_of_no_flags (h : IsLiteral text source []) : betweenSlashes text = source := by
  obtain rfl := h.text_eq
  rw [betweenSlashes, List.getLast?_concat, if_pos rfl, List.dropLast_concat]

theorem betweenSlashes_of_flags (h : IsLiteral text source flags) (hflags : flags ≠ []) : betweenSlashes text = text := by
  obtain rfl := h.text_eq
  obtain hnil | ⟨front, last, rfl⟩ := List.eq_nil_or_concat flags
  · exact absurd hnil hflags
  · have hlast : last ≠ '/' := by
      rintro rfl
      exact h.no_slash (by simp)
    rw [List.concat_eq_append, betweenSlashes, ← List.cons_append, ← List.append_assoc, List.getLast?_concat,
      if_neg fun hslash => hlast (Option.some.inj hslash)]

theorem cleanerOf_string (s : String) : cleanerOf (.string s) =
    match Regex.ofSource? (String.ofList (betweenSlashes s.toList)) false with
    | some r => .ok (some r)
    | none => .error (.structural ["modules", "nameCleaner"] .invalidRegex) := rfl

/-- A section whose other settings can be read is read if its cleaner is. -/
theorem ofFields_of_cleaner {wrapper definition : ModuleFormat} {autoRequire : Entries String (List String)} {v : Value}
    (hcleaner : Entries.get? fields "nameCleaner" = some v) (hwrapper : format fields "wrapper" = .ok wrapper)
    (hdefinition : format fields "definition" = .ok definition)
    (hrequire : autoRequireOf ((Entries.get? fields "autoRequire").getD .null) = .ok autoRequire) :
    ofFields fields = (cleanerOf v).map fun cleaner => ⟨wrapper, definition, cleaner, autoRequire⟩ := by
  unfold ofFields
  rw [hwrapper, hdefinition, hcleaner, Option.getD_some, hrequire]
  cases cleanerOf v <;> rfl

/-- A cleaner that is written as a literal without flags removes the first match of the regular expression that the
    literal is as a pattern. A literal with flags is no such cleaner: what is removed is the first match of the text as
    it stands, with slashes and flags, and if that does not compile the section is refused. -/
theorem cleanName_of_literal {wrapper definition : ModuleFormat} {autoRequire : Entries String (List String)}
    (h : IsLiteral s.toList source flags) (hr : Pattern.ofText s = .ok (.regex r))
    (hcleaner : Entries.get? fields "nameCleaner" = some (.string s)) (hwrapper : format fields "wrapper" = .ok wrapper)
    (hdefinition : format fields "definition" = .ok definition)
    (hrequire : autoRequireOf ((Entries.get? fields "autoRequire").getD .null) = .ok autoRequire) :
    r.source = String.ofList source ∧ r.ignoreCase = flags.contains 'i' ∧
    (flags = [] → ∃ m, ofFields fields = .ok m ∧ ∀ path, m.cleanName path = r.removeFirst (Glob.withSeparators path)) ∧
    (flags ≠ [] →
      (∀ whole, Regex.ofSource? s false = some whole → ∃ m, ofFields fields = .ok m ∧
        ∀ path, m.cleanName path = whole.removeFirst (Glob.withSeparators path)) ∧
      (Regex.ofSource? s false = none →
        ofFields fields = .error (.structural ["modules", "nameCleaner"] .invalidRegex))) := by
  obtain ⟨hsource, hcase⟩ := (Pattern.ofText_eq_regex_iff h).mp hr
  have hsection := ofFields_of_cleaner hcleaner hwrapper hdefinition hrequire
  rw [cleanerOf_string] at hsection
  refine ⟨hsource, hcase, fun hnone => ?plain, fun hflags => ?flagged⟩
  case plain =>
    subst hnone
    have hsame : Regex.ofSource? (String.ofList source) false = some r := Regex.ofSource?_eq_some_iff.mpr ⟨hsource, hcase⟩
    rw [betweenSlashes_of_no_flags h, hsame] at hsection
    exact ⟨_, hsection, fun _ => rfl⟩
  case flagged =>
    rw [betweenSlashes_of_flags h hflags, String.ofList_toList] at hsection
    refine ⟨fun whole hwhole => ?_, fun hwhole => ?_⟩
    · rw [hwhole] at hsection
      exact ⟨_, hsection, fun _ => rfl⟩
    · rw [hwhole] at hsection
      exact hsection

/-- Modules whose names are cleaned. -/
def cleanedBy (cleaner : String) : Mapping :=
  [("wrapper", .string "commonjs"), ("definition", .string "amd"), ("nameCleaner", .string cleaner)]

/-- A literal with a slash in its source and one at its end. -/
theorem cleanName_of_literal_innerSlash : IsLiteral "/^src/js//".toList "^src/js/".toList [] ∧
    ∃ m, ofFields (cleanedBy "/^src/js//") = .ok m ∧ m.cleanName "src\\js\\menu.js" = "menu.js" := by
  have h : IsLiteral "/^src/js//".toList "^src/js/".toList [] := ⟨by decide +kernel, by decide +kernel, nofun⟩
  obtain ⟨r, hr⟩ := Option.isSome_iff_exists.mp (show (Regex.ofSource? "^src/js/" false).isSome = true by decide +kernel)
  have hread : Pattern.ofText "/^src/js//" = .ok (.regex r) :=
    (Pattern.ofText_eq_regex_iff h).mpr (Regex.ofSource?_eq_some_iff.mp hr)
  have hcleaner : Entries.get? (cleanedBy "/^src/js//") "nameCleaner" = some (.string "/^src/js//") := rfl
  obtain ⟨-, -, hplain, -⟩ := cleanName_of_literal h hread hcleaner rfl rfl rfl
  obtain ⟨m, hm, hname⟩ := hplain rfl
  have hremoved : (Regex.ofSource? "^src/js/" false).map (·.removeFirst (Glob.withSeparators "src\\js\\menu.js")) =
      some "menu.js" := by decide +kernel
  rw [hr] at hremoved
  exact ⟨h, m, hm, (hname _).trans (Option.some.inj hremoved)⟩

/-- A literal with a flag, which as a pattern finds the beginning of a name, removes nothing as a cleaner. -/
theorem flaggedCleaner_removes_nothing : ¬ ∀ (s : String) (r : Regex), Pattern.ofText s = .ok (.regex r) →
    ∃ m, ofFields (cleanedBy s) = .ok m ∧ ∀ path, m.cleanName path = r.removeFirst (Glob.withSeparators path) := by
  intro hall
  have h : IsLiteral "/^app/i".toList "^app".toList ['i'] :=
    ⟨by decide +kernel, by decide +kernel, List.forall_mem_singleton.mpr List.mem_cons_self⟩
  obtain ⟨r, hr⟩ := Option.isSome_iff_exists.mp (show (Regex.ofSource? "^app" true).isSome = true by decide +kernel)
  obtain ⟨m, hm, hname⟩ := hall "/^app/i" r ((Pattern.ofText_eq_regex_iff h).mpr (Regex.ofSource?_eq_some_iff.mp hr))
  have hremoved : (Regex.ofSource? "^app" true).map (·.removeFirst (Glob.withSeparators "App/menu.js")) =
      some "/menu.js" := by decide +kernel
  have hkept : (ofFields (cleanedBy "/^app/i")).toOption.map (·.cleanName "App/menu.js") = some "App/menu.js" := by
    decide +kernel
  rw [hr] at hremoved
  rw [hm] at hkept
  have hsame : "App/menu.js" = "/menu.js" := calc
    "App/menu.js" = m.cleanName "App/menu.js" := (Option.some.inj hkept).symm
    _ = r.removeFirst (Glob.withSeparators "App/menu.js") := hname _
    _ = "/menu.js" := Option.some.inj hremoved
  exact absurd hsame (by decide)

end AssetPlan.Modules
