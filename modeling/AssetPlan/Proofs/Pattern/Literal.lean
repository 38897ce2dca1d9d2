import AssetPlan.Pattern
import AssetPlan.Proofs.Text
import AssetPlan.Proofs.Traversal

/-! # Literals of regular expressions

A text writes a regular expression if it is a source between slashes with flags behind the last one. No flag is a
slash, so the source reaches to the last slash of the text and may have slashes of its own. Any other text is a
glob. -/

namespace AssetPlan.Pattern
variable {text source flags : List Char} {s : String}

/-- A text that writes a regular expression. -/
structure IsLiteral (text source flags : List Char) : Prop where
  text_eq : text = '/' :: (source ++ '/' :: flags)
  source_ne_nil : source ≠ []
  flags : ∀ c ∈ flags, c ∈ literalFlags

theorem IsLiteral.no_slash (h : IsLiteral text source flags) : '/' ∉ flags :=
  fun hmem => absurd (h.flags _ hmem) (by decide)

theorem splitLiteral?_of_slash (hflags : '/' ∉ flags) : splitLiteral? ('/' :: (source ++ '/' :: flags)) =
    if source ≠ [] ∧ flags.all (literalFlags.contains ·) then some (source, flags) else none := by
  rw [splitLiteral?, Text.takeWhile_last_separator hflags, Text.dropWhile_last_separator hflags, List.tail_cons,
    List.reverse_reverse, List.reverse_reverse]

theorem splitLiteral?_of_no_slash (h : '/' ∉ text) : splitLiteral? ('/' :: text) = none := by
  rw [splitLiteral?, Text.dropWhile_no_separator h]
  exact if_neg fun hok => hok.1 rfl

theorem isLiteral_of_splitLiteral? (h : splitLiteral? text = some (source, flags)) : IsLiteral text source flags := by
  obtain ⟨rest, rfl⟩ : ∃ rest, text = '/' :: rest := by
    unfold splitLiteral? at h
    split at h
    · exact ⟨_, rfl⟩
    · cases h
  by_cases hslash : '/' ∈ rest
  · obtain ⟨front, behind, rfl, hbehind⟩ := Text.exists_last_separator hslash
    rw [splitLiteral?_of_slash hbehind] at h
    split at h
    · rename_i hok
      cases h
      exact ⟨rfl, hok.1, fun c hc => List.contains_iff_mem.mp (List.all_eq_true.mp hok.2 c hc)⟩
    · cases h
  · rw [splitLiteral?_of_no_slash hslash] at h
    cases h

theorem splitLiteral?_of_isLiteral (h : IsLiteral text source flags) : splitLiteral? text = some (source, flags) := by
  have hflags : flags.all (literalFlags.contains ·) = true :=
    List.all_eq_true.mpr fun c hc => List.contains_iff_mem.mpr (h.flags c hc)
  obtain rfl := h.text_eq
  rw [splitLiteral?_of_slash h.no_slash]
  exact if_pos ⟨h.source_ne_nil, hflags⟩

/-! ### What a text is read as -/

theorem ofSource_eq_ok_iff {source : String} {ignoreCase : Bool} {p : Pattern} :
    ofSource source ignoreCase = .ok p ↔ ∃ r, p = .regex r ∧ r.source = source ∧ r.ignoreCase = ignoreCase := by
  simp only [← Regex.ofSource?_eq_some_iff]
  unfold ofSource
  cases Regex.ofSource? source ignoreCase <;> simp [eq_comm]

theorem ofSource_eq_error_iff {source : String} {ignoreCase : Bool} {e : InvalidRegex} :
    ofSource source ignoreCase = .error e ↔ Regex.compile? source ignoreCase = none ∧ e = ⟨source⟩ := by
  rw [← Regex.ofSource?_eq_none_iff]
  unfold ofSource
  cases Regex.ofSource? source ignoreCase <;> simp [eq_comm]

theorem ofText_of_isLiteral (h : IsLiteral s.toList source flags) :
    ofText s = ofSource (String.ofList source) (flags.contains 'i') := by
  rw [ofText, splitLiteral?_of_isLiteral h]

theorem ofText_of_not_isLiteral (h : ∀ source flags, ¬ IsLiteral s.toList source flags) : ofText s = .ok (.glob s) := by
  unfold ofText
  split
  · rename_i source flags hsplit
    exact absurd (isLiteral_of_splitLiteral? hsplit) (h source flags)
  · rfl

/-- A literal is read as the regular expression of its source, which looks at case unless a flag says otherwise. -/
theorem ofText_eq_regex_iff (h : IsLiteral s.toList source flags) {r : Regex} :
    ofText s = .ok (.regex r) ↔ r.source = String.ofList source ∧ r.ignoreCase = flags.contains 'i' := by
  rw [ofText_of_isLiteral h, ofSource_eq_ok_iff]
  simp

/-- A text can be read unless it is the literal of a regular expression that does not compile. -/
theorem exists_ofText_iff : (∃ p, ofText s = .ok p) ↔ ∀ source flags, IsLiteral s.toList source flags →
    ∃ r, Regex.ofSource? (String.ofList source) (flags.contains 'i') = some r := by
  simp only [Regex.ofSource?_eq_some_iff]
  constructor
  · rintro ⟨p, hp⟩ source flags hliteral
    rw [ofText_of_isLiteral hliteral] at hp
    obtain ⟨r, -, hr⟩ := ofSource_eq_ok_iff.mp hp
    exact ⟨r, hr⟩
  · intro h
    by_cases hliteral : ∃ source flags, IsLiteral s.toList source flags
    · obtain ⟨source, flags, hliteral⟩ := hliteral
      obtain ⟨r, hr⟩ := h source flags hliteral
      exact ⟨_, (ofText_eq_regex_iff hliteral).mpr hr⟩
    · exact ⟨_, ofText_of_not_isLiteral fun source flags hs => hliteral ⟨source, flags, hs⟩⟩

theorem eq_contains_iff {b : Bool} {c : Char} : b = flags.contains c ↔ (b = true ↔ c ∈ flags) := by
  rw [Bool.eq_iff_iff, List.contains_iff_mem]

/-- Every text is read as the grammar of literals says. A literal is the regular expression of what stands between its
    first and its last slash: it ignores case just if a flag is `i`, it is refused just if the source does not compile,
    and no other flag counts. Any other text is a glob as it stands. -/
theorem ofText_follows_grammar (s : String) :
    (∀ source flags, IsLiteral s.toList source flags → '/' ∉ flags ∧
      (∀ p, ofText s = .ok p ↔
        ∃ r, p = .regex r ∧ r.source = String.ofList source ∧ (r.ignoreCase = true ↔ 'i' ∈ flags)) ∧
      (∀ e, ofText s = .error e ↔
        Regex.compile? (String.ofList source) (flags.contains 'i') = none ∧ e = ⟨String.ofList source⟩) ∧
      ∀ (s' : String) flags', IsLiteral s'.toList source flags' → ('i' ∈ flags' ↔ 'i' ∈ flags) →
        ofText s' = ofText s) ∧
    ((∀ source flags, ¬ IsLiteral s.toList source flags) → ofText s = .ok (.glob s)) := by
  refine ⟨fun source flags h => ⟨h.no_slash, fun p => ?read, fun e => ?refused, fun s' flags' h' hcase => ?flags⟩,
    ofText_of_not_isLiteral⟩
  case read =>
    rw [ofText_of_isLiteral h, ofSource_eq_ok_iff]
    simp only [eq_contains_iff]
  case refused =>
    rw [ofText_of_isLiteral h, ofSource_eq_error_iff]
  case flags =>
    have hsame : flags'.contains 'i' = flags.contains 'i' := eq_contains_iff.mpr (List.contains_iff_mem.trans hcase)
    rw [ofText_of_isLiteral h, ofText_of_isLiteral h', hsame]

/-- A source with slashes and a flag without effect, a source that does not compile, an empty source, and a path whose
    last part is no run of flags. -/
theorem ofText_follows_grammar_slashes :
    ofText "/^lib//gi" = ofText "/^lib//i" ∧
    (∃ r, ofText "/^lib//i" = .ok (.regex r) ∧ r.source = "^lib/" ∧ r.ignoreCase = true) ∧
    ofText "/lib/(/y" = .error ⟨"lib/("⟩ ∧
    ofText "//i" = .ok (.glob "//i") ∧ ofText "/srv/big" = .ok (.glob "/srv/big") := by
  have hlib : IsLiteral "/^lib//i".toList "^lib/".toList ['i'] := isLiteral_of_splitLiteral? rfl
  have hglobal : IsLiteral "/^lib//gi".toList "^lib/".toList ['g', 'i'] := isLiteral_of_splitLiteral? rfl
  have hopen : IsLiteral "/lib/(/y".toList "lib/(".toList ['y'] := isLiteral_of_splitLiteral? rfl
  have none_of_split : ∀ {text : String}, splitLiteral? text.toList = none → ∀ source flags,
      ¬ IsLiteral text.toList source flags :=
    fun hnone source flags h => nomatch hnone.symm.trans (splitLiteral?_of_isLiteral h)
  obtain ⟨-, hread, -, hflags⟩ := (ofText_follows_grammar "/^lib//i").1 _ _ hlib
  obtain ⟨-, -, hrefused, -⟩ := (ofText_follows_grammar "/lib/(/y").1 _ _ hopen
  refine ⟨hflags _ _ hglobal (by decide), ?_, (hrefused _).mpr ⟨?_, rfl⟩,
    (ofText_follows_grammar "//i").2 (none_of_split (by decide)),
    (ofText_follows_grammar "/srv/big").2 (none_of_split (by decide))⟩
  · obtain ⟨p, hp⟩ := exists_ok_of_isOk (x := ofText "/^lib//i") (by decide +kernel)
    obtain ⟨r, rfl, hsource, hcase⟩ := (hread p).mp hp
    exact ⟨r, hp, hsource, hcase.mpr (by decide)⟩
  · exact Option.isNone_iff_eq_none.mp (by decide +kernel)

end AssetPlan.Pattern
