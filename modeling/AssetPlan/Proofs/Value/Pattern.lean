import AssetPlan.Proofs.Traversal
import AssetPlan.Value.Pattern

/-! # Values as patterns: the part of the key

The key under which a value is read as a pattern stands in the error only: it decides neither whether the
value is a pattern nor which one. The regular expressions that a setting holds have no flags. -/

namespace AssetPlan.Value

mutual

theorem toPattern_of_key {key : List String} (key' : List String) :
    ∀ {v : Value} {p : Pattern}, toPattern key v = .ok p → toPattern key' v = .ok p
  | .string s, p, h => by
    rw [toPattern] at h ⊢
    cases hs : Pattern.ofText s with
    | error e =>
      rw [hs] at h
      cases h
    | ok q =>
      rw [hs] at h
      exact h
  | .list items, p, h => by
    rw [toPattern] at h ⊢
    obtain ⟨ps, hps, hp⟩ := bind_eq_ok.mp (h : toPatterns key items >>= (fun ps => .ok (.any ps)) = .ok p)
    rw [toPatterns_of_key key' hps]
    exact hp
  | .regex r, p, h => h
  | .predicate q, p, h => h
  | .null, p, h => by cases h
  | .bool b, p, h => by cases h
  | .number n, p, h => by cases h
  | .mapping es, p, h => by cases h
termination_by structural v => v

theorem toPatterns_of_key {key : List String} (key' : List String) :
    ∀ {vs : List Value} {ps : List Pattern}, toPatterns key vs = .ok ps → toPatterns key' vs = .ok ps
  | [], ps, h => h
  | v :: rest, ps, h => by
    obtain ⟨p, hp, h⟩ := bind_eq_ok.mp h
    obtain ⟨qs, hqs, h⟩ := bind_eq_ok.mp h
    cases h
    rw [toPatterns, toPattern_of_key key' hp, toPatterns_of_key key' hqs]
    rfl
termination_by structural vs => vs

end

theorem ofSource_eq_ok_iff {key : List String} {source : String} {v : Value} :
    ofSource key source = .ok v ↔ ∃ r, v = .regex r ∧ r.source = source ∧ r.ignoreCase = false := by
  simp only [← Regex.ofSource?_eq_some_iff]
  unfold ofSource
  cases Regex.ofSource? source false <;> simp [eq_comm]

end AssetPlan.Value
