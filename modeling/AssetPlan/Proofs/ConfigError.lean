import AssetPlan.Configuration.Modules
import AssetPlan.Proofs.Value.Leaves
import AssetPlan.Proofs.Value.Section
import AssetPlan.Proofs.Value.Shapes
import AssetPlan.Value.Watched

/-! # Rejected values

An error that names a key rejects a value: it finds a fault with the value that the value has. Every reader of a
setting that fails names the key of the setting and rejects the value that stands there. -/

namespace AssetPlan
variable {m fields : Mapping} {path key : List String} {setting : String} {standard : Bool} {v : Value} {e : ConfigError}

/-- Whether a value has a shape. -/
def Shape.Fits : Shape → Value → Prop
  | .mapping, v => v.isMapping = true
  | .string, v => ∃ s, v = .string s
  | .boolean, v => ∃ b, v = .bool b
  | .regex, v => (∃ r, v = .regex r) ∨ ∃ s, v = .string s
  | .strings, v | .pluginNameOrNames, v => (∃ s, v = .string s) ∨ ∃ items, v = .list items
  | .stringOrStrings, v | .pluginNames, v | .moduleNames, v | .moduleNameOrNames, v => ∃ texts, v.strings? = some texts
  | .pattern, v => ∀ leaf ∈ v.leaves, (∃ s, leaf = .string s) ∨ (∃ r, leaf = .regex r) ∨ ∃ p, leaf = .predicate p
  | .outputs, v => (∃ s, v = .string s) ∨ v.isMapping = true
  | .moduleFormat, v => v = .string "commonjs" ∨ v = .string "amd" ∨ v = .bool false
  | .port, v => ∃ n, v.nat? = some n ∧ n < UInt16.size
  | .milliseconds, v => ∃ n, v.nat? = some n

theorem Shape.not_fits_of_strings? (h : v.strings? = none) : ¬ ∃ texts, v.strings? = some texts := by
  rintro ⟨texts, htexts⟩
  rw [h] at htexts
  cases htexts

/-- Whether a value has a fault. -/
def Fault.Concerns : Fault → Value → Prop
  | .found wanted _, v | .misshapen wanted, v => ¬ wanted.Fits v
  | .strayEntry kind, v => ∃ items, v = .list items ∧ ∃ item ∈ items, item.kind = kind ∧ kind ≠ .string
  | .missing, _ => False
  | .emptyList, v => v = .list []
  | .invalidRegex, v => ∃ s, v = .string s ∧ Regex.ofSource? (String.ofList (Modules.betweenSlashes s.toList)) false = none

/-- What no reader of a shape rejects. A regular expression, a pattern or a list of directories that has the shape need
    not be one that can be read. -/
def Shape.Admits : Shape → Value → Prop
  | .regex, v => ∃ r, v = .regex r
  | .pattern, v => ∀ leaf ∈ v.leaves, ∃ r, leaf = .regex r
  | .strings, v => ∃ texts, texts ≠ [] ∧ v = .ofStrings texts
  | shape, v => shape.Fits v

/-- The shape that a setting with the fault is read by. -/
def Fault.wanted? : Fault → Option Shape
  | .found wanted _ | .misshapen wanted => some wanted
  | .strayEntry _ | .emptyList => some .strings
  | .invalidRegex => some .regex
  | .missing => none

namespace ConfigError

/-- The key that an error names. -/
def key? : ConfigError → Option (List String)
  | .structural key _ | .pattern key _ => some key
  | _ => none

/-- Whether an error rejects a value: the value has the fault, or a text in it is a regular expression that does not
    compile. -/
def Rejects : ConfigError → Value → Prop
  | .structural _ fault, v => fault.Concerns v
  | .pattern _ invalid, v => ∃ s, .string s ∈ v.leaves ∧ Pattern.ofText s = .error invalid
  | _, _ => False

/-- The shape that the setting is read by at which an error came up. -/
def wanted? : ConfigError → Option Shape
  | .structural _ fault => fault.wanted?
  | .pattern _ _ => some .pattern
  | _ => none

theorem not_rejects_of_admits {wanted : Shape} (he : e.wanted? = some wanted) (hv : wanted.Admits v) : ¬ e.Rejects v := by
  have hfits : wanted.Fits v := by
    cases wanted with
    | regex => exact .inl hv
    | pattern => exact fun leaf hleaf => .inr (.inl (hv leaf hleaf))
    | strings =>
      obtain ⟨texts, -, rfl⟩ := hv
      exact .inr ⟨_, rfl⟩
    | _ => exact hv
  cases e with
  | structural key fault =>
    cases fault with
    -- These two faults say that the value has not the shape. The others belong to one shape each.
    | found shape what | misshapen shape =>
      cases he
      exact not_not_intro hfits
    | strayEntry kind =>
      cases he
      obtain ⟨texts, -, rfl⟩ := hv
      rintro ⟨items, hitems, item, hitem, rfl, hkind⟩
      cases hitems
      obtain ⟨text, -, rfl⟩ := List.mem_map.mp hitem
      exact hkind rfl
    | emptyList =>
      cases he
      obtain ⟨texts, hne, rfl⟩ := hv
      intro hnil
      exact hne (List.map_eq_nil_iff.mp (Value.list.inj hnil))
    | invalidRegex =>
      cases he
      obtain ⟨r, rfl⟩ := hv
      rintro ⟨s, hs, -⟩
      cases hs
    | missing => exact id
  | pattern key invalid =>
    cases he
    rintro ⟨s, hs, -⟩
    obtain ⟨r, hr⟩ := hv _ hs
    cases hr
  | _ => exact id

/-- The error rejects a value in a tree and names the path to it; `front` leads to the tree. -/
def RejectsBelow (front : List String) (u : Value) (e : ConfigError) : Prop :=
  ∃ path v, e.key? = some (front ++ path) ∧ u.find? path = some v ∧ e.Rejects v

theorem RejectsBelow.here {front : List String} (hkey : e.key? = some front) (h : e.Rejects v) : e.RejectsBelow front v :=
  ⟨[], v, by rwa [List.append_nil], rfl, h⟩

theorem RejectsBelow.under {front : List String} {u : Value} (hv : Entries.get? m setting = some u)
    (h : e.RejectsBelow (front ++ [setting]) u) : e.RejectsBelow front (.mapping m) := by
  obtain ⟨path, v, hkey, hfound, hrejects⟩ := h
  refine ⟨setting :: path, v, by rwa [← List.append_cons] at hkey, ?_, hrejects⟩
  show m.find? (setting :: path) = some v
  rw [Mapping.find?_cons_eq, hv]
  exact hfound

end ConfigError

/-! ### Sections and their settings -/

namespace Mapping

theorem fields?_eq_error (h : m.fields? setting = .error e) : ∃ v, Entries.get? m setting = some v ∧ v.isNull = false ∧
    v.isMapping = false ∧ e = .structural [setting] (.ofKind .mapping v) := by
  unfold fields? at h
  cases hv : Entries.get? m setting with
  | none =>
    rw [hv] at h
    cases h
  | some v =>
    rw [hv] at h
    cases v with
    | null | mapping es => cases h
    | _ =>
      cases h
      exact ⟨_, rfl, rfl, rfl, rfl⟩

theorem text?_eq_error (h : fields.text? path setting = .error e) :
    Entries.get? fields setting = none ∨ ∃ v, Entries.get? fields setting = some v ∧ ¬ Shape.string.Fits v ∧
      e = .structural (path ++ [setting]) (.ofKind .string v) := by
  unfold text? at h
  cases hv : Entries.get? fields setting with
  | none => exact .inl rfl
  | some v =>
    rw [hv] at h
    cases v with
    | string s => cases h
    | _ =>
      cases h
      exact .inr ⟨_, rfl, nofun, rfl⟩

theorem flag?_eq_error (h : fields.flag? path setting standard = .error e) : ∃ v, Entries.get? fields setting = some v ∧
    ¬ Shape.boolean.Fits v ∧ e = .structural (path ++ [setting]) (.ofKind .boolean v) := by
  unfold flag? at h
  cases hv : Entries.get? fields setting with
  | none =>
    rw [hv] at h
    cases h
  | some v =>
    rw [hv] at h
    cases v with
    | null | bool b => cases h
    | _ =>
      cases h
      exact ⟨_, rfl, nofun, rfl⟩

theorem required_eq_error (h : m.required setting = .error e) :
    Entries.get? m setting = none ∨ ∃ v, Entries.get? m setting = some v ∧ ¬ Shape.mapping.Fits v ∧
      e = .structural [setting] (.ofKind .mapping v) := by
  unfold required at h
  cases hv : Entries.get? m setting with
  | none => exact .inl rfl
  | some v =>
    rw [hv] at h
    cases v with
    | mapping es => cases h
    | _ =>
      cases h
      exact .inr ⟨_, rfl, nofun, rfl⟩

end Mapping

/-! ### Watched directories and patterns -/

namespace Value

theorem watchedItems_eq_error {items : List Value} (h : watchedItems items = .error e) :
    ∃ item ∈ items, item.kind ≠ .string ∧ e = .structural watchedKey (.strayEntry item.kind) := by
  induction items with
  | nil => cases h
  | cons item rest ih =>
    cases item with
    | string s =>
      rw [watchedItems] at h
      cases hrest : watchedItems rest with
      | ok texts =>
        rw [hrest] at h
        cases h
      | error e' =>
        rw [hrest] at h
        cases h
        obtain ⟨item, hitem, hstray⟩ := ih hrest
        exact ⟨item, List.mem_cons_of_mem _ hitem, hstray⟩
    | _ =>
      cases h
      exact ⟨_, List.mem_cons_self, nofun, rfl⟩

theorem watched_eq_error (h : v.watched = .error e) :
    ∃ fault, e = .structural watchedKey fault ∧ fault.wanted? = some .strings ∧ fault.Concerns v := by
  cases v with
  | string s => cases h
  | list items =>
    cases items with
    | nil =>
      cases h
      exact ⟨_, rfl, rfl, rfl⟩
    | cons item rest =>
      obtain ⟨stray, hstray, hkind, rfl⟩ := watchedItems_eq_error (show watchedItems (item :: rest) = _ from h)
      exact ⟨_, rfl, rfl, _, rfl, stray, hstray, rfl, hkind⟩
  | _ =>
    cases h
    exact ⟨_, rfl, rfl, by rintro (⟨_, h⟩ | ⟨_, h⟩) <;> cases h⟩

mutual

/-- A value that is no pattern has a leaf that is none. -/
theorem toPattern_eq_error : ∀ {v : Value}, v.toPattern key = .error e →
    (∃ what, e = .structural key (.found .pattern what) ∧ ¬ Shape.pattern.Fits v) ∨
      ∃ invalid, e = .pattern key invalid ∧ ∃ s, .string s ∈ v.leaves ∧ Pattern.ofText s = .error invalid
  | .string s, h => by
    rw [toPattern] at h
    cases hs : Pattern.ofText s with
    | ok p =>
      rw [hs] at h
      cases h
    | error invalid =>
      rw [hs] at h
      cases h
      exact .inr ⟨invalid, rfl, s, by simp [leaves], hs⟩
  | .list items, h => by
    rw [toPattern] at h
    cases hs : toPatterns key items with
    | ok ps =>
      rw [hs] at h
      cases h
    | error e' =>
      rw [hs] at h
      cases h
      exact toPatterns_eq_error hs
  | .regex r, h => by cases h
  | .predicate p, h => by cases h
  | .null, h | .bool _, h | .number _, h | .mapping _, h => by
    cases h
    refine .inl ⟨_, rfl, fun hfits => ?_⟩
    rcases hfits _ (List.mem_singleton.mpr rfl) with ⟨_, h⟩ | ⟨_, h⟩ | ⟨_, h⟩ <;> cases h
termination_by structural v => v

theorem toPatterns_eq_error : ∀ {vs : List Value}, toPatterns key vs = .error e →
    (∃ what, e = .structural key (.found .pattern what) ∧ ¬ Shape.pattern.Fits (.list vs)) ∨
      ∃ invalid, e = .pattern key invalid ∧ ∃ s, .string s ∈ allLeaves vs ∧ Pattern.ofText s = .error invalid
  | [], h => by cases h
  | v :: rest, h => by
    rcases bind_eq_error.mp h with hv | ⟨p, -, h⟩
    · rcases toPattern_eq_error hv with ⟨what, rfl, hfits⟩ | ⟨invalid, rfl, s, hs, hinvalid⟩
      · refine .inl ⟨what, rfl, fun hall => hfits fun leaf hleaf => hall leaf ?_⟩
        exact List.mem_append_left _ hleaf
      · exact .inr ⟨invalid, rfl, s, List.mem_append_left _ hs, hinvalid⟩
    · rcases bind_eq_error.mp h with hrest | ⟨qs, -, h⟩
      · rcases toPatterns_eq_error hrest with ⟨what, rfl, hfits⟩ | ⟨invalid, rfl, s, hs, hinvalid⟩
        · refine .inl ⟨what, rfl, fun hall => hfits fun leaf hleaf => hall leaf ?_⟩
          exact List.mem_append_right _ hleaf
        · exact .inr ⟨invalid, rfl, s, List.mem_append_right _ hs, hinvalid⟩
      · cases h
termination_by structural vs => vs

end

/-- A pattern that cannot be read is rejected under its key. -/
theorem rejects_of_toPattern (h : v.toPattern key = .error e) :
    e.key? = some key ∧ e.wanted? = some .pattern ∧ e.Rejects v := by
  rcases toPattern_eq_error h with ⟨what, rfl, hfits⟩ | ⟨invalid, rfl, hinvalid⟩
  · exact ⟨rfl, rfl, hfits⟩
  · exact ⟨rfl, rfl, hinvalid⟩

end Value
end AssetPlan
