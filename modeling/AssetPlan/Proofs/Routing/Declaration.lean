import AssetPlan.Proofs.Entries
import AssetPlan.Proofs.Traversal
import AssetPlan.Routing.Compile

/-! # Declared outputs

What a `files` section declares, in the order in which output paths are claimed: the joined outputs of all
asset types, then the outputs of the entry points of scripts. Of several declarations of one output path
`firstsBy` keeps the first. Claiming is picking the firsts that are still free, and reading the bundles of
a value gives every output that it declares, each with the matcher of its own pattern. -/

namespace AssetPlan

/-! ### First occurrences -/

/-- The items whose key does not occur earlier. -/
def firstsBy {α : Type} (key : α → String) : List α → List α
  | [] => []
  | a :: rest => a :: (firstsBy key rest).filter fun b => key b ≠ key a

section Firsts
variable {α β : Type} {key : α → String} {as bs : List α}

theorem firstsBy_sublist : ∀ as : List α, (firstsBy key as).Sublist as
  | [] => List.Sublist.refl []
  | a :: rest => (List.filter_sublist.trans (firstsBy_sublist rest)).cons_cons a

theorem mem_map_firstsBy {k : String} : k ∈ (firstsBy key as).map key ↔ k ∈ as.map key := by
  induction as with
  | nil => rfl
  | cons a rest ih =>
    simp only [List.mem_map, firstsBy, List.mem_cons, List.mem_filter, decide_eq_true_eq] at ih ⊢
    constructor
    · rintro ⟨b, rfl | ⟨hb, -⟩, rfl⟩
      · exact ⟨b, Or.inl rfl, rfl⟩
      · obtain ⟨c, hc, h⟩ := ih.mp ⟨b, hb, rfl⟩
        exact ⟨c, Or.inr hc, h⟩
    · rintro ⟨b, rfl | hb, rfl⟩
      · exact ⟨b, Or.inl rfl, rfl⟩
      · by_cases h : key b = key a
        · exact ⟨a, Or.inl rfl, h.symm⟩
        · obtain ⟨c, hc, hk⟩ := ih.mpr ⟨b, hb, rfl⟩
          exact ⟨c, Or.inr ⟨hc, hk ▸ h⟩, hk⟩

/-- An item stays if it is the first one with its key. -/
theorem mem_firstsBy_iff {a : α} : a ∈ firstsBy key as ↔ as.find? (fun b => key b = key a) = some a := by
  induction as with
  | nil => exact ⟨nofun, nofun⟩
  | cons first rest ih =>
    rw [firstsBy, List.mem_cons, List.mem_filter, ih, List.find?_cons]
    by_cases hkey : key first = key a
    · simp [hkey, eq_comm]
    · have hne : a ≠ first := fun heq => hkey (congrArg key heq.symm)
      simp [hkey, hne, Ne.symm hkey]

theorem nodup_map_firstsBy : ∀ as : List α, ((firstsBy key as).map key).Nodup
  | [] => List.nodup_nil
  | a :: rest => by
    rw [firstsBy, List.map_cons, List.nodup_cons]
    refine ⟨fun h => ?_, (nodup_map_firstsBy rest).sublist (List.filter_sublist.map key)⟩
    obtain ⟨b, hb, hk⟩ := List.mem_map.mp h
    exact of_decide_eq_true (List.mem_filter.mp hb).2 hk

theorem firstsBy_of_nodup (h : (as.map key).Nodup) : firstsBy key as = as := by
  induction as with
  | nil => rfl
  | cons a rest ih =>
    obtain ⟨ha, hrest⟩ := List.nodup_cons.mp h
    have hne : ∀ b ∈ rest, decide (key b ≠ key a) = true :=
      fun b hb => decide_eq_true fun heq => ha (List.mem_map.mpr ⟨b, hb, heq⟩)
    rw [firstsBy, ih hrest, List.filter_eq_self.mpr hne]

/-- An item behind others stays if its key occurs neither among them nor before it. -/
theorem firstsBy_append (as bs : List α) :
    firstsBy key (as ++ bs) = firstsBy key as ++ (firstsBy key bs).filter fun b => key b ∉ as.map key := by
  induction as with
  | nil => exact (List.filter_eq_self.mpr fun b _ => by simp).symm
  | cons a rest ih =>
    rw [List.cons_append, firstsBy, firstsBy, ih, List.filter_append, List.filter_filter, List.cons_append]
    congr 2
    apply List.filter_congr
    intro b _
    by_cases h : key b = key a <;> simp [h]

theorem map_firstsBy {f : α → β} {key' : β → String} (hf : ∀ a, key' (f a) = key a) :
    ∀ as : List α, (firstsBy key as).map f = firstsBy key' (as.map f)
  | [] => rfl
  | a :: rest => by
    rw [firstsBy, List.map_cons, List.map_cons, firstsBy, ← map_firstsBy hf rest, List.filter_map]
    simp only [Function.comp_def, hf]

end Firsts

/-- Claiming keeps the first bundle of every output path that is free. -/
theorem Bundles.claim_fst (claimed : List String) (bundles : Bundles) :
    (Bundles.claim claimed bundles).1 = (firstsBy Prod.fst bundles).filter fun b => b.1 ∉ claimed := by
  induction bundles generalizing claimed with
  | nil => rfl
  | cons b rest ih =>
    obtain ⟨output, matcher⟩ := b
    rw [Bundles.claim, firstsBy, List.filter_cons, List.filter_filter]
    by_cases h : output ∈ claimed
    · rw [if_pos (List.contains_iff_mem.mpr h), if_neg (by simpa using h)]
      show (Bundles.claim claimed rest).1 = _
      rw [ih]
      apply List.filter_congr
      intro c _
      by_cases hc : c.1 = output <;> simp [hc, h]
    · rw [if_neg (by simpa using h), if_pos (by simpa using h)]
      show (output, matcher) :: (Bundles.claim (claimed ++ [output]) rest).1 = _
      rw [ih]
      congr 1
      apply List.filter_congr
      intro c _
      simp [not_or]

/-! ### Declarations -/

/-- An output that a `files` section declares. -/
structure Declaration where
  type : AssetType
  entry : String
  output : String
  /-- The pattern as it was written; an output without one takes every asset. -/
  pattern : Option Value

namespace Declaration

/-- The matcher that the pattern of an output compiles to. -/
def matcher? (d : Declaration) : Option Matcher :=
  match d.pattern with
  | none => some .everything
  | some v => (v.toPattern []).toOption.map .pattern

/-- The outputs that a value declares for an entry. -/
def ofValue (type : AssetType) (entry : String) : Value → List Declaration
  | .string output => [⟨type, entry, output, none⟩]
  | .mapping outputs => outputs.map fun o => ⟨type, entry, o.1, some o.2⟩
  | _ => []

/-- The joined outputs of a section. -/
def joined (type : AssetType) (fields : Value) : List Declaration :=
  ((fields.get? "joinTo").map (ofValue type defaultEntry)).getD []

/-- The outputs of the entry points of a section; the name of joined routing is none. -/
def entered (type : AssetType) (fields : Value) : List Declaration :=
  if type.hasEntryPoints then
    ((((fields.get? "entryPoints").bind Value.mapping?).getD []).filter fun e => e.1 ≠ defaultEntry).flatMap
      fun e => ofValue type e.1 e.2
  else []

/-- What the sections of asset types declare; a section under any other key declares nothing. -/
def ofSections (declares : AssetType → Value → List Declaration) (files : Mapping) : List Declaration :=
  files.flatMap fun s => ((AssetType.ofName? s.1).map (declares · s.2)).getD []

/-- The outputs that a `files` section declares, in the order in which they are claimed. -/
def ofFiles (files : Mapping) : List Declaration := ofSections joined files ++ ofSections entered files

/-- The declarations whose output path does not occur earlier. -/
def firsts (ds : List Declaration) : List Declaration := firstsBy output ds

theorem ofValue_place {type : AssetType} {entry : String} {v : Value} {d : Declaration}
    (h : d ∈ ofValue type entry v) : d.type = type ∧ d.entry = entry := by
  cases v with
  | string output =>
    obtain rfl := List.mem_singleton.mp h
    exact ⟨rfl, rfl⟩
  | mapping outputs =>
    obtain ⟨o, -, rfl⟩ := List.mem_map.mp h
    exact ⟨rfl, rfl⟩
  | _ => cases h

end Declaration
end AssetPlan
