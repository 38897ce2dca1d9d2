import AssetPlan.Proofs.Pattern.Literal
import AssetPlan.Proofs.Value.Pattern
import AssetPlan.Value.Json

/-! # Values written as JSON and read again

Every JSON value is found again in the configuration value that it gives, and a value without regular expressions and
predicates is found again in its JSON (`ofJson_toJson_iff`). A regular expression is written as its literal: the slash
behind the source is the last one of the text, so it is read with the whole source, slashes and all, and patterns that
are made of texts and such regular expressions are read as they were. -/

namespace AssetPlan.Value
variable {key : List String}

/-- A value without regular expressions and predicates at any depth. -/
inductive IsData : Value → Prop
  | null : IsData .null
  | bool (b : Bool) : IsData (.bool b)
  | number (n : Number) : IsData (.number n)
  | string (s : String) : IsData (.string s)
  | list {items : List Value} (h : ∀ v ∈ items, IsData v) : IsData (.list items)
  | mapping {entries : Mapping} (h : ∀ e ∈ entries, IsData e.2) : IsData (.mapping entries)

mutual

theorem toJson_ofJson : ∀ j : Json, (ofJson j).toJson = j
  | .null | .bool _ | .number _ | .string _ => rfl
  | .array items => congrArg Json.array (toJsonItems_ofJsonItems items)
  | .object members => congrArg Json.object (toJsonMembers_ofJsonMembers members)
termination_by structural j => j

theorem toJsonItems_ofJsonItems : ∀ js : List Json, toJsonItems (ofJsonItems js) = js
  | [] => rfl
  | j :: rest => by rw [ofJsonItems, toJsonItems, toJson_ofJson j, toJsonItems_ofJsonItems rest]
termination_by structural js => js

theorem toJsonMembers_ofJsonMembers : ∀ ms : List (String × Json), toJsonMembers (ofJsonMembers ms) = ms
  | [] => rfl
  | (k, j) :: rest => by rw [ofJsonMembers, toJsonMembers, toJson_ofJson j, toJsonMembers_ofJsonMembers rest]
termination_by structural ms => ms

end

mutual

theorem ofJson_toJson_iff : ∀ {v : Value}, ofJson v.toJson = v ↔ v.IsData
  | .null => ⟨fun _ => .null, fun _ => rfl⟩
  | .bool b => ⟨fun _ => .bool b, fun _ => rfl⟩
  | .number n => ⟨fun _ => .number n, fun _ => rfl⟩
  | .string s => ⟨fun _ => .string s, fun _ => rfl⟩
  | .list items => by
    have hitems : (Value.list items).IsData ↔ ∀ v ∈ items, v.IsData := by
      refine ⟨fun h => ?_, .list⟩
      cases h with
      | list h => exact h
    rw [hitems, ← ofJsonItems_toJsonItems_iff]
    exact ⟨list.inj, congrArg list⟩
  | .mapping entries => by
    have hentries : (Value.mapping entries).IsData ↔ ∀ e ∈ entries, e.2.IsData := by
      refine ⟨fun h => ?_, .mapping⟩
      cases h with
      | mapping h => exact h
    rw [hentries, ← ofJsonMembers_toJsonMembers_iff]
    exact ⟨mapping.inj, congrArg mapping⟩
  | .regex _ | .predicate _ => ⟨nofun, nofun⟩
termination_by structural v => v

theorem ofJsonItems_toJsonItems_iff : ∀ {vs : List Value}, ofJsonItems (toJsonItems vs) = vs ↔ ∀ v ∈ vs, v.IsData
  | [] => ⟨fun _ => nofun, fun _ => rfl⟩
  | v :: rest => by
    rw [List.forall_mem_cons, ← ofJson_toJson_iff, ← ofJsonItems_toJsonItems_iff]
    exact List.cons_eq_cons
termination_by structural vs => vs

theorem ofJsonMembers_toJsonMembers_iff :
    ∀ {es : List (String × Value)}, ofJsonMembers (toJsonMembers es) = es ↔ ∀ e ∈ es, e.2.IsData
  | [] => ⟨fun _ => nofun, fun _ => rfl⟩
  | (k, v) :: rest => by
    rw [List.forall_mem_cons, ← ofJson_toJson_iff, ← ofJsonMembers_toJsonMembers_iff]
    refine List.cons_eq_cons.trans (and_congr_left fun _ => ?_)
    exact ⟨fun h => (Prod.mk.inj h).2, congrArg (k, ·)⟩
termination_by structural es => es

end

/-! ### Regular expressions -/

/-- A source between slashes is a literal without flags, whatever slashes it has itself. -/
theorem isLiteral_slashed {source : String} (h : source ≠ "") :
    Pattern.IsLiteral ("/" ++ source ++ "/").toList source.toList [] where
  text_eq := by simp
  source_ne_nil := by simpa using h
  flags := List.forall_mem_nil _

theorem ofText_slashed {r : Regex} (hsource : r.source ≠ "") (hcase : r.ignoreCase = false) :
    Pattern.ofText ("/" ++ r.source ++ "/") = .ok (.regex r) :=
  (Pattern.ofText_eq_regex_iff (isLiteral_slashed hsource)).mpr ⟨String.ofList_toList.symm, hcase⟩

/-- A pattern that JSON can write: texts and regular expressions as `ofSource` makes them, other than the empty one,
    put together by lists. -/
inductive IsWritten : Value → Prop
  | text (s : String) : IsWritten (.string s)
  | regex {r : Regex} (hsource : r.source ≠ "") (hcase : r.ignoreCase = false) : IsWritten (.regex r)
  | list {items : List Value} (h : ∀ v ∈ items, IsWritten v) : IsWritten (.list items)

mutual

theorem toPattern_ofJson_toJson : ∀ {v : Value}, v.IsWritten → (ofJson v.toJson).toPattern key = v.toPattern key
  | .string _, _ => rfl
  | .regex r, h => by
    cases h with
    | regex hsource hcase =>
      show (Pattern.ofText ("/" ++ r.source ++ "/")).mapError _ = .ok (.regex r)
      rw [ofText_slashed hsource hcase]
      rfl
  | .list items, h => by
    cases h with
    | list h => exact congrArg (Except.map Pattern.any) (toPatterns_ofJson_toJson h)
  | .null, h | .bool _, h | .number _, h | .mapping _, h | .predicate _, h => by cases h
termination_by structural v => v

theorem toPatterns_ofJson_toJson : ∀ {vs : List Value}, (∀ v ∈ vs, v.IsWritten) →
    toPatterns key (ofJsonItems (toJsonItems vs)) = toPatterns key vs
  | [], _ => rfl
  | v :: rest, h => by
    obtain ⟨hv, hrest⟩ := List.forall_mem_cons.mp h
    rw [toJsonItems, ofJsonItems, toPatterns, toPatterns, toPattern_ofJson_toJson hv, toPatterns_ofJson_toJson hrest]
termination_by structural vs => vs

end

/-- Values and JSON say the same of each other, in the same order of keys. From JSON to a value and back nothing is lost,
    and from a value to JSON and back just regular expressions and predicates are. But a regular expression of a source
    that is not empty is written as a text that is read as itself, and a pattern of texts and such regular expressions
    is read as the same pattern, or refused for the same reason. -/
theorem json_roundTrip :
    (∀ j : Json, (ofJson j).toJson = j) ∧ (∀ v : Value, ofJson v.toJson = v ↔ v.IsData) ∧
    (∀ key source v, source ≠ "" → ofSource key source = .ok v → ∃ r text, v = .regex r ∧ r.source = source ∧
      v.toJson = .string text ∧ ∀ key', (Value.string text).toPattern key' = .ok (.regex r)) ∧
    ∀ v : Value, v.IsWritten → ∀ key, (ofJson v.toJson).toPattern key = v.toPattern key := by
  refine ⟨toJson_ofJson, fun _ => ofJson_toJson_iff, fun key source v hsource hv => ?_,
    fun _ h _ => toPattern_ofJson_toJson h⟩
  obtain ⟨r, rfl, rfl, hcase⟩ := ofSource_eq_ok_iff.mp hv
  exact ⟨r, _, rfl, rfl, rfl, fun key' => toPattern_ofJson_toJson (.regex hsource hcase)⟩

/-- A source with slashes of its own and a flag behind them, in a list below a list. -/
theorem json_roundTrip_innerFlag : ∃ r, ofSource ["files"] "lib//i" = .ok (.regex r) ∧
    (Value.regex r).toJson = .string "/lib//i/" ∧
    (∀ key, (Value.string "/lib//i/").toPattern key = .ok (.regex r)) ∧
    (ofJson (Value.list [.string "app/*", .list [.regex r]]).toJson).toPattern ["files"] =
      .ok (.any [.glob "app/*", .any [.regex r]]) := by
  obtain ⟨-, -, hregex, hpattern⟩ := json_roundTrip
  obtain ⟨v, hv⟩ := exists_ok_of_isOk (x := ofSource ["files"] "lib//i") (by decide +kernel)
  obtain ⟨r, text, rfl, hsource, htext, hread⟩ := hregex _ _ v (by decide) hv
  have hwritten : (Value.list [.string "app/*", .list [.regex r]]).IsWritten := by
    have hr : (Value.regex r).IsWritten := by
      obtain ⟨_, hsame, -, hcase⟩ := ofSource_eq_ok_iff.mp hv
      cases hsame
      exact .regex (by simp [hsource]) hcase
    have hinner : (Value.list [.regex r]).IsWritten := .list (List.forall_mem_singleton.mpr hr)
    exact .list (List.forall_mem_cons.mpr ⟨.text _, List.forall_mem_singleton.mpr hinner⟩)
  have hslashed : (Value.regex r).toJson = .string "/lib//i/" := by
    rw [toJson, hsource]
    exact congrArg Json.string (by decide)
  cases hslashed.symm.trans htext
  exact ⟨r, hv, hslashed, hread, (hpattern _ hwritten _).trans rfl⟩

end AssetPlan.Value
