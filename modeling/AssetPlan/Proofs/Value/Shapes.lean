import AssetPlan.Value

/-! # Lists of strings

A value is read as strings if it is one string, or a list that holds nothing else. -/

namespace AssetPlan.Value

theorem strings?_ofStrings (texts : List String) : (ofStrings texts).strings? = some texts := by
  have items : allStrings? (texts.map .string) = some texts := by
    induction texts with
    | nil => rfl
    | cons text rest ih =>
      rw [List.map_cons, allStrings?, ih]
      rfl
  exact items

theorem eq_of_allStrings? : ∀ {items : List Value} {texts : List String},
    allStrings? items = some texts → items = texts.map .string
  | [], _, h => by
    cases h
    rfl
  | .string s :: rest, texts, h => by
    obtain ⟨texts', hrest, rfl⟩ := Option.map_eq_some_iff.mp h
    rw [eq_of_allStrings? hrest]
    rfl

/-- What is read as strings is one string or a list of strings. -/
theorem strings?_eq_some_iff {v : Value} {texts : List String} :
    v.strings? = some texts ↔ (∃ s, v = .string s ∧ texts = [s]) ∨ v = ofStrings texts := by
  constructor
  · intro h
    cases v with
    | string s =>
      cases h
      exact .inl ⟨s, rfl, rfl⟩
    | list items => exact .inr (congrArg Value.list (eq_of_allStrings? h))
    | _ => cases h
  · rintro (⟨s, rfl, rfl⟩ | rfl)
    · rfl
    · exact strings?_ofStrings texts

end AssetPlan.Value
