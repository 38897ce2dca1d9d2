import AssetPlan.Matcher
import AssetPlan.Proofs.Pattern.Literal
import AssetPlan.Proofs.Traversal
import AssetPlan.Value.Pattern

/-! # Patterns as unions of their leaves

A value that is a pattern is built by lists from texts, regular expressions and predicates, and these are its leaves.
Exactly such values are read as patterns (`exists_toPattern_iff`), and what is read accepts a path if one of the
leaves does, however the lists are nested (`accepts_iff_exists_leaf`). So two values with the same leaves, in whatever
order and nesting, accept the same paths (`toPattern_unites_leaves`). -/

namespace AssetPlan.Value
variable {key : List String} {path : String}

/-- The values that are patterns. A text is one unless it is the literal of a regular expression that does not
    compile. -/
inductive IsPattern : Value → Prop
  | text {s : String} (h : ∀ source flags, Pattern.IsLiteral s.toList source flags →
      ∃ r, Regex.ofSource? (String.ofList source) (flags.contains 'i') = some r) : IsPattern (.string s)
  | regex (r : Regex) : IsPattern (.regex r)
  | predicate (p : Predicate) : IsPattern (.predicate p)
  | list {items : List Value} (h : ∀ item ∈ items, IsPattern item) : IsPattern (.list items)

mutual

/-- The values below lists; a value that is no list is its only leaf. -/
def leaves : Value → List Value
  | .list items => allLeaves items
  | v => [v]
termination_by structural v => v

/-- The leaves of all items. -/
def allLeaves : List Value → List Value
  | [] => []
  | v :: rest => leaves v ++ allLeaves rest
termination_by structural vs => vs

end

/-- Whether a text, a regular expression or a predicate accepts a path. -/
def leafAccepts (path : String) : Value → Bool
  | .string s => (Pattern.ofText s).toOption.any (·.accepts path)
  | .regex r => r.accepts path
  | .predicate p => p.accepts path
  | _ => false

mutual

theorem exists_toPattern_iff : ∀ {v : Value}, (∃ p, v.toPattern key = .ok p) ↔ v.IsPattern
  | .string s => by
    have hread : (∃ p, (Value.string s).toPattern key = .ok p) ↔ ∃ p, Pattern.ofText s = .ok p := by
      rw [toPattern]
      cases Pattern.ofText s with
      | error e => exact ⟨nofun, nofun⟩
      | ok p => exact ⟨fun _ => ⟨p, rfl⟩, fun _ => ⟨p, rfl⟩⟩
    rw [hread, Pattern.exists_ofText_iff]
    refine ⟨.text, fun h => ?_⟩
    cases h with
    | text h => exact h
  | .list items => by
    have hread : (∃ p, (Value.list items).toPattern key = .ok p) ↔ ∃ ps, toPatterns key items = .ok ps := by
      rw [toPattern]
      cases toPatterns key items with
      | error e => exact ⟨nofun, nofun⟩
      | ok ps => exact ⟨fun _ => ⟨ps, rfl⟩, fun _ => ⟨_, rfl⟩⟩
    rw [hread, exists_toPatterns_iff]
    refine ⟨.list, fun h => ?_⟩
    cases h with
    | list h => exact h
  | .regex r => ⟨fun _ => .regex r, fun _ => ⟨_, rfl⟩⟩
  | .predicate q => ⟨fun _ => .predicate q, fun _ => ⟨_, rfl⟩⟩
  | .null | .bool _ | .number _ | .mapping _ => ⟨nofun, nofun⟩
termination_by structural v => v

theorem exists_toPatterns_iff : ∀ {vs : List Value}, (∃ ps, toPatterns key vs = .ok ps) ↔ ∀ v ∈ vs, v.IsPattern
  | [] => ⟨fun _ => nofun, fun _ => ⟨[], rfl⟩⟩
  | v :: rest => by
    have hread : (∃ ps, toPatterns key (v :: rest) = .ok ps) ↔
        (∃ p, v.toPattern key = .ok p) ∧ ∃ ps, toPatterns key rest = .ok ps := by
      constructor
      · rintro ⟨ps, h⟩
        obtain ⟨p, hp, h⟩ := bind_eq_ok.mp h
        obtain ⟨qs, hqs, -⟩ := bind_eq_ok.mp h
        exact ⟨⟨p, hp⟩, qs, hqs⟩
      · rintro ⟨⟨p, hp⟩, qs, hqs⟩
        exact ⟨_, bind_eq_ok.mpr ⟨p, hp, bind_eq_ok.mpr ⟨qs, hqs, rfl⟩⟩⟩
    rw [hread, exists_toPattern_iff, exists_toPatterns_iff, List.forall_mem_cons]
termination_by structural vs => vs

end

mutual

theorem accepts_iff_exists_leaf : ∀ {v : Value} {p : Pattern}, v.toPattern key = .ok p →
    (p.accepts path = true ↔ ∃ leaf ∈ v.leaves, leaf.leafAccepts path = true)
  | .string s, p, h => by
    rw [toPattern] at h
    cases hs : Pattern.ofText s with
    | error e =>
      rw [hs] at h
      cases h
    | ok q =>
      rw [hs] at h
      cases h
      simp [leaves, leafAccepts, hs, Except.toOption]
  | .regex r, p, h => by
    cases h
    simp [leaves, leafAccepts, Pattern.accepts]
  | .predicate q, p, h => by
    cases h
    simp [leaves, leafAccepts, Pattern.accepts]
  | .list items, p, h => by
    obtain ⟨ps, hps, hp⟩ := bind_eq_ok.mp (h : toPatterns key items >>= (fun ps => .ok (.any ps)) = .ok p)
    cases hp
    exact anyAccepts_iff_exists_leaf hps
  | .null, p, h | .bool _, p, h | .number _, p, h | .mapping _, p, h => by cases h
termination_by structural v => v

theorem anyAccepts_iff_exists_leaf : ∀ {vs : List Value} {ps : List Pattern}, toPatterns key vs = .ok ps →
    (Pattern.anyAccepts path ps = true ↔ ∃ leaf ∈ allLeaves vs, leaf.leafAccepts path = true)
  | [], ps, h => by
    cases h
    simp [allLeaves, Pattern.anyAccepts]
  | v :: rest, ps, h => by
    obtain ⟨p, hp, h⟩ := bind_eq_ok.mp h
    obtain ⟨qs, hqs, h⟩ := bind_eq_ok.mp h
    cases h
    simp only [allLeaves, Pattern.anyAccepts, Bool.or_eq_true, accepts_iff_exists_leaf hp, anyAccepts_iff_exists_leaf hqs,
      List.mem_append, or_and_right, exists_or]
termination_by structural vs => vs

end

/-! ### Leaves alone -/

mutual

theorem leaves_of_mem_leaves : ∀ {v leaf : Value}, leaf ∈ v.leaves → leaf.leaves = [leaf]
  | .list items, leaf, h => by
    have hitems : leaf ∈ allLeaves items := h
    exact leaves_of_mem_allLeaves hitems
  | .null, leaf, h | .bool _, leaf, h | .number _, leaf, h | .string _, leaf, h | .mapping _, leaf, h
  | .regex _, leaf, h | .predicate _, leaf, h => by
    cases List.mem_singleton.mp h
    rfl
termination_by structural v => v

theorem leaves_of_mem_allLeaves : ∀ {vs : List Value} {leaf : Value}, leaf ∈ allLeaves vs → leaf.leaves = [leaf]
  | [], _, h => nomatch h
  | _ :: _, _, h => (List.mem_append.mp h).elim leaves_of_mem_leaves leaves_of_mem_allLeaves
termination_by structural vs => vs

end

mutual

theorem isPattern_iff_leaves : ∀ {v : Value}, v.IsPattern ↔ ∀ leaf ∈ v.leaves, leaf.IsPattern
  | .list items => by
    have hitems : (Value.list items).IsPattern ↔ ∀ item ∈ items, item.IsPattern := by
      refine ⟨fun h => ?_, .list⟩
      cases h with
      | list h => exact h
    rw [hitems, allPatterns_iff_leaves]
    rfl
  | .null | .bool _ | .number _ | .string _ | .mapping _ | .regex _ | .predicate _ => List.forall_mem_singleton.symm
termination_by structural v => v

theorem allPatterns_iff_leaves : ∀ {vs : List Value}, (∀ v ∈ vs, v.IsPattern) ↔ ∀ leaf ∈ allLeaves vs, leaf.IsPattern
  | [] => ⟨fun _ => nofun, fun _ => nofun⟩
  | v :: rest => by
    rw [List.forall_mem_cons, allLeaves, List.forall_mem_append]
    exact and_congr isPattern_iff_leaves allPatterns_iff_leaves
termination_by structural vs => vs

end

/-- What a leaf accepts is what it accepts when it is read alone. -/
theorem leafAccepts_iff {v leaf : Value} (hleaf : leaf ∈ v.leaves) (h : leaf.IsPattern) :
    leaf.leafAccepts path = true ↔ ∃ q, leaf.toPattern key = .ok q ∧ q.accepts path = true := by
  obtain ⟨q, hq⟩ := exists_toPattern_iff.mpr h
  have haccepts : q.accepts path = true ↔ ∃ other ∈ leaf.leaves, other.leafAccepts path = true :=
    accepts_iff_exists_leaf hq
  rw [leaves_of_mem_leaves hleaf] at haccepts
  constructor
  · intro hpath
    exact ⟨q, hq, haccepts.mpr ⟨leaf, List.mem_singleton_self leaf, hpath⟩⟩
  · rintro ⟨q', hq', hpath⟩
    obtain rfl := Except.ok.inj (hq.symm.trans hq')
    obtain ⟨other, hother, hpath⟩ := haccepts.mp hpath
    rwa [List.mem_singleton.mp hother] at hpath

/-- A value that is read as a pattern is the union of its leaves, and nothing but its leaves counts: values with the
    same leaves in another order, number or nesting are read too and accept the same paths, and a value without leaves
    accepts none. -/
theorem toPattern_unites_leaves (key : List String) (v : Value) :
    ((∃ p, v.toPattern key = .ok p) ↔ v.IsPattern) ∧
    (∀ p, v.toPattern key = .ok p → ∀ path, Matcher.accepts path (.pattern p) = true ↔
      ∃ leaf ∈ v.leaves, ∃ q, leaf.toPattern key = .ok q ∧ Matcher.accepts path (.pattern q) = true) ∧
    (∀ p (w : Value), v.toPattern key = .ok p → (∀ leaf, leaf ∈ w.leaves ↔ leaf ∈ v.leaves) →
      ∃ q, w.toPattern key = .ok q ∧ ∀ path, Matcher.accepts path (.pattern q) = Matcher.accepts path (.pattern p)) ∧
    (v.leaves = [] → ∃ p, v.toPattern key = .ok p ∧ ∀ path, Matcher.accepts path (.pattern p) = false) := by
  refine ⟨exists_toPattern_iff, fun p hp path => ?union, fun p w hp hsame => ?same, fun hnone => ?empty⟩
  case union =>
    have hleaves := isPattern_iff_leaves.mp (exists_toPattern_iff.mp ⟨p, hp⟩)
    refine (accepts_iff_exists_leaf hp).trans ⟨?_, ?_⟩
    · rintro ⟨leaf, hleaf, hpath⟩
      exact ⟨leaf, hleaf, (leafAccepts_iff hleaf (hleaves leaf hleaf)).mp hpath⟩
    · rintro ⟨leaf, hleaf, hpath⟩
      exact ⟨leaf, hleaf, (leafAccepts_iff hleaf (hleaves leaf hleaf)).mpr hpath⟩
  case same =>
    have hleaves := isPattern_iff_leaves.mp (exists_toPattern_iff.mp ⟨p, hp⟩)
    have hw : w.IsPattern := isPattern_iff_leaves.mpr fun leaf hleaf => hleaves leaf ((hsame leaf).mp hleaf)
    obtain ⟨q, hq⟩ : ∃ q, w.toPattern key = .ok q := exists_toPattern_iff.mpr hw
    refine ⟨q, hq, fun path => Bool.eq_iff_iff.mpr ?_⟩
    exact (accepts_iff_exists_leaf hq).trans (.trans (by simp only [hsame]) (accepts_iff_exists_leaf hp).symm)
  case empty =>
    have hv : v.IsPattern := isPattern_iff_leaves.mpr (by simp [hnone])
    obtain ⟨p, hp⟩ : ∃ p, v.toPattern key = .ok p := exists_toPattern_iff.mpr hv
    refine ⟨p, hp, fun path => Bool.eq_false_iff.mpr fun hpath => ?_⟩
    obtain ⟨leaf, hleaf, -⟩ := (accepts_iff_exists_leaf hp).mp hpath
    rw [hnone] at hleaf
    cases hleaf

/-- Scripts of vendors and styles, with an empty list among them. -/
def nestedPaths : Value := .list [.list [.string "/^vendor/i", .list []], .string "app/*.css"]

/-- The same leaves, turned round, one of them twice. -/
def turnedPaths : Value := .list [.string "app/*.css", .string "/^vendor/i", .list [.list [.string "app/*.css"]]]

theorem toPattern_unites_leaves_turnedPaths : ∃ p q, nestedPaths.toPattern ["paths"] = .ok p ∧
    turnedPaths.toPattern ["paths"] = .ok q ∧ Matcher.accepts "Vendor/react.js" (.pattern q) = true ∧
    Matcher.accepts "app/nested/main.css" (.pattern q) = false := by
  obtain ⟨p, hp⟩ := exists_ok_of_isOk (x := nestedPaths.toPattern ["paths"]) (by decide +kernel)
  obtain ⟨-, -, hsame, -⟩ := toPattern_unites_leaves ["paths"] nestedPaths
  obtain ⟨q, hq, haccepts⟩ := hsame p turnedPaths hp (by simp [nestedPaths, turnedPaths, leaves, allLeaves, or_comm])
  have hvendor : (nestedPaths.toPattern ["paths"]).toOption.any (Pattern.accepts "Vendor/react.js") = true := by
    decide +kernel
  have hnested : (nestedPaths.toPattern ["paths"]).toOption.any (Pattern.accepts "app/nested/main.css") = false := by
    decide +kernel
  rw [hp] at hvendor hnested
  exact ⟨p, q, hp, hq, (haccepts _).trans hvendor, (haccepts _).trans hnested⟩

end AssetPlan.Value
