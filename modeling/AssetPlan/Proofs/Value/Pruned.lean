import AssetPlan.Proofs.Value.Unset
import AssetPlan.Proofs.Value.WellKeyed

/-! # Trees without some of their entries

Pruning drops the entries at the ends of given chains of keys and keeps the order of the rest. It commutes with
look-ups and writes that go along no dropped chain (`Kept`) and do not go on below one either (`Whole`). -/

namespace AssetPlan

namespace KeyPath
variable {drop : List String → Bool} {key : String} {path : List String}

/-- What is dropped below a key. -/
def below (drop : List String → Bool) (key : String) : List String → Bool := fun q => drop (key :: q)

/-- No dropped chain ends on the way to the end of this one. -/
def Kept (drop : List String → Bool) (path : List String) : Prop := ∀ q, drop q = true → ¬ q <+: path

/-- A chain that is kept, and below whose end nothing is dropped. -/
def Whole (drop : List String → Bool) (path : List String) : Prop := ∀ q, drop q = true → Apart q path

theorem Whole.kept (h : Whole drop path) : Kept drop path := fun q hq => (h q hq).1

theorem Kept.head (h : Kept drop (key :: path)) : drop [key] = false :=
  Bool.eq_false_iff.mpr fun hq => h [key] hq (List.prefix_append [key] path)

theorem Kept.tail (h : Kept drop (key :: path)) : Kept (below drop key) path :=
  fun q hq hp => h (key :: q) hq (List.cons_prefix_cons.mpr ⟨rfl, hp⟩)

theorem Whole.tail (h : Whole drop (key :: path)) : Whole (below drop key) path := fun q hq => (h (key :: q) hq).tail

theorem Whole.never (h : Whole drop []) (q : List String) : drop q = false :=
  Bool.eq_false_iff.mpr fun hq => (h q hq).2 List.nil_prefix

theorem Whole.append {drop' : List String → Bool} {more : List String} (h : Whole drop (path ++ more))
    (hdrop : ∀ q, drop' q = drop (path ++ q)) : Whole drop' more :=
  fun q hq => (h (path ++ q) ((hdrop q).symm.trans hq)).of_append

theorem Kept.append {more : List String} (h : Kept drop (path ++ more)) : Kept drop path :=
  fun q hq hp => h q hq (hp.trans (List.prefix_append path more))

end KeyPath

namespace Value
open KeyPath

mutual

/-- The tree without the entries at dropped chains of keys. -/
def prune (drop : List String → Bool) : Value → Value
  | .mapping entries => .mapping (pruneEntries drop entries)
  | v => v
termination_by structural v => v

/-- The entries without those at dropped chains of keys. -/
def pruneEntries (drop : List String → Bool) : List (String × Value) → Mapping
  | [] => []
  | (key, v) :: rest =>
    if drop [key] then pruneEntries drop rest else (key, prune (below drop key) v) :: pruneEntries drop rest
termination_by structural entries => entries

end

end Value

/-- The mapping without the entries at dropped chains of keys. -/
def Mapping.prune (drop : List String → Bool) (m : Mapping) : Mapping := Value.pruneEntries drop m

namespace Value
open KeyPath
variable {drop drop' : List String → Bool} {m : Mapping} {key : String} {v : Value}

@[simp] theorem prune_mapping (drop : List String → Bool) (m : Mapping) :
    prune drop (.mapping m) = .mapping (Mapping.prune drop m) := rfl

@[simp] theorem isMapping_prune (drop : List String → Bool) (v : Value) : (v.prune drop).isMapping = v.isMapping := by
  cases v <;> rfl

@[simp] theorem isNull_prune (drop : List String → Bool) (v : Value) : (v.prune drop).isNull = v.isNull := by
  cases v <;> rfl

mutual

/-- Where nothing is dropped a tree is left as it is. -/
theorem prune_of_never : ∀ {v : Value} {drop : List String → Bool}, (∀ q, drop q = false) → v.prune drop = v
  | .mapping _, _, h => congrArg Value.mapping (pruneEntries_of_never h)
  | .null, _, _ | .bool _, _, _ | .number _, _, _ | .string _, _, _ | .list _, _, _ | .regex _, _, _
  | .predicate _, _, _ => rfl
termination_by structural v => v

theorem pruneEntries_of_never : ∀ {es : List (String × Value)} {drop : List String → Bool}, (∀ q, drop q = false) →
    pruneEntries drop es = es
  | [], _, _ => rfl
  | (key, v) :: rest, drop, h => by
    have hv : v.prune (below drop key) = v := prune_of_never fun q => h (key :: q)
    rw [pruneEntries, h, hv, pruneEntries_of_never h]
    rfl
termination_by structural es => es

end

mutual

/-- Dropping more afterwards comes to dropping it at once. -/
theorem prune_prune : ∀ {v : Value} {drop drop' : List String → Bool}, (∀ q, drop q = true → drop' q = true) →
    (v.prune drop).prune drop' = v.prune drop'
  | .mapping _, _, _, h => congrArg Value.mapping (pruneEntries_pruneEntries h)
  | .null, _, _, _ | .bool _, _, _, _ | .number _, _, _, _ | .string _, _, _, _ | .list _, _, _, _ | .regex _, _, _, _
  | .predicate _, _, _, _ => rfl
termination_by structural v => v

theorem pruneEntries_pruneEntries : ∀ {es : List (String × Value)} {drop drop' : List String → Bool},
    (∀ q, drop q = true → drop' q = true) → pruneEntries drop' (pruneEntries drop es) = pruneEntries drop' es
  | [], _, _, _ => rfl
  | (key, v) :: rest, drop, drop', h => by
    have hrest : pruneEntries drop' (pruneEntries drop rest) = pruneEntries drop' rest := pruneEntries_pruneEntries h
    rw [pruneEntries, pruneEntries]
    cases hkey : drop [key] with
    | true =>
      rw [h _ hkey]
      exact hrest
    | false =>
      have hv : (v.prune (below drop key)).prune (below drop' key) = v.prune (below drop' key) :=
        prune_prune fun q => h (key :: q)
      show pruneEntries drop' ((key, _) :: _) = _
      rw [pruneEntries, hv, hrest]
termination_by structural es => es

end

theorem prune_of_whole (h : Whole drop []) (v : Value) : v.prune drop = v := prune_of_never h.never

end Value

namespace Mapping
open KeyPath
variable {drop drop' : List String → Bool} {m more : Mapping} {key : String} {path q : List String} {v : Value}
  {f f' : Mapping → Except ConfigError Mapping}

theorem prune_prune (h : ∀ q, drop q = true → drop' q = true) (m : Mapping) :
    (m.prune drop).prune drop' = m.prune drop' := Value.pruneEntries_pruneEntries h

theorem prune_cons_dropped (h : drop [key] = true) (v : Value) (rest : Mapping) :
    prune drop ((key, v) :: rest) = prune drop rest := if_pos h

theorem prune_cons_kept (h : drop [key] = false) (v : Value) (rest : Mapping) :
    prune drop ((key, v) :: rest) = (key, v.prune (below drop key)) :: prune drop rest :=
  if_neg (Bool.eq_false_iff.mp h)

theorem get?_prune (h : drop [key] = false) (m : Mapping) :
    Entries.get? (m.prune drop) key = (Entries.get? m key).map (Value.prune (below drop key)) := by
  induction m with
  | nil => rfl
  | cons e rest ih =>
    obtain ⟨k, v⟩ := e
    rw [Entries.get?_cons]
    by_cases hk : k = key
    · subst hk
      rw [prune_cons_kept h, Entries.get?_cons, if_pos rfl, if_pos rfl]
      rfl
    · rw [if_neg hk, ← ih]
      cases hdrop : drop [k] with
      | true => rw [prune_cons_dropped hdrop]
      | false => rw [prune_cons_kept hdrop, Entries.get?_cons, if_neg hk]

theorem get?_prune_dropped (h : drop [key] = true) (m : Mapping) : Entries.get? (m.prune drop) key = none := by
  induction m with
  | nil => rfl
  | cons e rest ih =>
    obtain ⟨k, v⟩ := e
    cases hdrop : drop [k] with
    | true => rw [prune_cons_dropped hdrop, ih]
    | false =>
      have hk : k ≠ key := fun heq => by rw [heq, h] at hdrop; cases hdrop
      rw [prune_cons_kept hdrop, Entries.get?_cons, if_neg hk, ih]

theorem keys_prune (h : ∀ key, drop [key] = false) (m : Mapping) : Entries.keys (m.prune drop) = Entries.keys m := by
  induction m with
  | nil => rfl
  | cons e rest ih =>
    obtain ⟨k, v⟩ := e
    rw [prune_cons_kept (h k)]
    exact congrArg (k :: ·) ih

theorem keys_prune_sublist (m : Mapping) : (Entries.keys (m.prune drop)).Sublist (Entries.keys m) := by
  induction m with
  | nil => exact List.Sublist.refl _
  | cons e rest ih =>
    obtain ⟨k, v⟩ := e
    cases hdrop : drop [k] with
    | true =>
      rw [prune_cons_dropped hdrop]
      exact ih.cons k
    | false =>
      rw [prune_cons_kept hdrop]
      exact ih.cons_cons k

theorem has_prune (h : drop [key] = false) (m : Mapping) : Entries.has (m.prune drop) key = Entries.has m key := by
  unfold Entries.has
  rw [get?_prune h, Option.isSome_map]

theorem hasValue_prune (h : drop [key] = false) (m : Mapping) : (m.prune drop).hasValue key = m.hasValue key := by
  unfold hasValue
  rw [get?_prune h, Option.any_map]
  congr 1
  funext v
  exact congrArg _ (Value.isNull_prune _ v)

theorem child_prune (h : drop [key] = false) (m : Mapping) :
    (m.prune drop).child key = (m.child key).prune (below drop key) := by
  unfold child
  rw [get?_prune h]
  cases Entries.get? m key with
  | none => rfl
  | some v => cases v <;> rfl

theorem prune_insert (h : drop [key] = false) (m : Mapping) (v : Value) :
    prune drop (Entries.insert m key v) = Entries.insert (m.prune drop) key (v.prune (below drop key)) := by
  induction m with
  | nil => exact prune_cons_kept h v []
  | cons e rest ih =>
    obtain ⟨k, w⟩ := e
    rw [Entries.insert]
    by_cases hk : k = key
    · subst hk
      rw [if_pos rfl, prune_cons_kept h, prune_cons_kept h, Entries.insert, if_pos rfl]
    · rw [if_neg hk]
      cases hdrop : drop [k] with
      | true => rw [prune_cons_dropped hdrop, prune_cons_dropped hdrop, ih]
      | false => rw [prune_cons_kept hdrop, prune_cons_kept hdrop, Entries.insert, if_neg hk, ih]

theorem prune_insert_dropped (h : drop [key] = true) (m : Mapping) (v : Value) :
    prune drop (Entries.insert m key v) = m.prune drop := by
  induction m with
  | nil => exact prune_cons_dropped h v []
  | cons e rest ih =>
    obtain ⟨k, w⟩ := e
    rw [Entries.insert]
    by_cases hk : k = key
    · subst hk
      rw [if_pos rfl, prune_cons_dropped h, prune_cons_dropped h]
    · rw [if_neg hk]
      cases hdrop : drop [k] with
      | true => rw [prune_cons_dropped hdrop, prune_cons_dropped hdrop, ih]
      | false => rw [prune_cons_kept hdrop, prune_cons_kept hdrop, ih]

theorem prune_erase (m : Mapping) (key : String) :
    prune drop (Entries.erase m key) = Entries.erase (m.prune drop) key := by
  unfold Entries.erase
  induction m with
  | nil => rfl
  | cons e rest ih =>
    obtain ⟨k, w⟩ := e
    cases hdrop : drop [k] with
    | true =>
      rw [prune_cons_dropped hdrop, List.filter_cons, ← ih]
      split
      · exact prune_cons_dropped hdrop _ _
      · rfl
    | false =>
      rw [prune_cons_kept hdrop, List.filter_cons, List.filter_cons, ← ih]
      split
      · exact prune_cons_kept hdrop _ _
      · rfl

theorem prune_insertAll (m more : Mapping) :
    prune drop (Entries.insertAll m more) = Entries.insertAll (m.prune drop) (more.prune drop) := by
  induction more generalizing m with
  | nil => rfl
  | cons e rest ih =>
    obtain ⟨k, w⟩ := e
    show prune drop (Entries.insertAll (Entries.insert m k w) rest) = _
    rw [ih]
    cases hdrop : drop [k] with
    | true => rw [prune_insert_dropped hdrop, prune_cons_dropped hdrop]
    | false =>
      rw [prune_insert hdrop, prune_cons_kept hdrop]
      rfl

theorem prune_setDefault (h : drop [key] = false) (m : Mapping) (v : Value) :
    prune drop (m.setDefault key v) = (m.prune drop).setDefault key (v.prune (below drop key)) := by
  unfold setDefault
  rw [hasValue_prune h]
  split
  · rfl
  · exact prune_insert h m v

/-- A section in which nothing is dropped is changed as it would be before pruning. -/
theorem modifyChild_prune (h : Whole drop [key]) (m : Mapping) (f : Mapping → Mapping) :
    (m.prune drop).modifyChild key f = (m.modifyChild key f).prune drop := by
  have hwhole : ∀ m : Mapping, m.prune (below drop key) = m := fun m => Value.pruneEntries_of_never h.tail.never
  unfold modifyChild
  rw [prune_insert h.kept.head, Value.prune_mapping, hwhole, child_prune h.kept.head, hwhole]

theorem find?_prune (h : Kept drop path) (m : Mapping) :
    ∃ drop', (∀ q, drop' q = drop (path ++ q)) ∧ (m.prune drop).find? path = (m.find? path).map (Value.prune drop') := by
  induction path generalizing drop m with
  | nil => exact ⟨drop, fun _ => rfl, rfl⟩
  | cons key path ih =>
    rw [find?_cons_eq, find?_cons_eq, get?_prune h.head]
    cases Entries.get? m key with
    | none => exact ⟨fun q => drop (key :: path ++ q), fun _ => rfl, rfl⟩
    | some v =>
      cases v with
      | mapping es => exact ih h.tail es
      | _ =>
        refine ⟨fun q => drop (key :: path ++ q), fun _ => rfl, ?_⟩
        cases path <;> rfl

/-- A look-up is not touched by what is dropped elsewhere. -/
theorem find?_prune_of_whole (h : Whole drop path) (m : Mapping) : (m.prune drop).find? path = m.find? path := by
  obtain ⟨drop', hdrop, hfind⟩ := find?_prune h.kept m
  have hnever : ∀ q, drop' q = false := by
    intro q
    rw [hdrop]
    exact Bool.eq_false_iff.mpr fun hq => (h _ hq).2 (List.prefix_append path q)
  rw [hfind]
  cases m.find? path with
  | none => rfl
  | some v => exact congrArg some (Value.prune_of_never hnever)

theorem get?_prune_of_whole (h : Whole drop [key]) (m : Mapping) : Entries.get? (m.prune drop) key = Entries.get? m key :=
  get?_congr (find?_prune_of_whole h m)

theorem set?_prune (h : drop [key] = false) (m : Mapping) :
    (m.prune drop).set? key = (m.set? key).map (Value.prune (below drop key)) := by
  unfold set?
  rw [get?_prune h]
  cases Entries.get? m key with
  | none => rfl
  | some v => cases v <;> rfl

theorem set?_prune_dropped (h : drop [key] = true) (m : Mapping) : (m.prune drop).set? key = none := by
  unfold set?
  rw [get?_prune_dropped h]
  rfl

/-- Dropping null entries leaves set what is set. -/
theorem sameSet_prune (hnull : ∀ key, drop [key] = true → Entries.get? m key = some .null)
    (hbelow : ∀ key q, q ≠ [] → drop (key :: q) = false) : SameSet m (m.prune drop) := by
  refine sameSet_iff.mpr fun key => ?_
  cases hkey : drop [key] with
  | true => rw [set?_prune_dropped hkey, set?_of_null (hnull key hkey)]
  | false =>
    have hnever : ∀ q, below drop key q = false := by
      intro q
      cases q with
      | nil => exact hkey
      | cons next q => exact hbelow key (next :: q) nofun
    rw [set?_prune hkey]
    cases m.set? key with
    | none => rfl
    | some v => rw [Option.map_some, Value.prune_of_never hnever]

/-! ### Sections -/

theorem fields?_prune (h : drop [key] = false) (m : Mapping) :
    (m.prune drop).fields? key = (m.fields? key).map (prune (below drop key)) := by
  unfold fields?
  rw [get?_prune h]
  cases Entries.get? m key with
  | none => rfl
  | some v => cases v <;> rfl

theorem required_prune (h : drop [key] = false) (m : Mapping) :
    (m.prune drop).required key = (m.required key).map (prune (below drop key)) := by
  unfold required
  rw [get?_prune h]
  cases Entries.get? m key with
  | none => rfl
  | some v => cases v <;> rfl

theorem required_prune_of_whole (h : Whole drop [key]) (m : Mapping) : (m.prune drop).required key = m.required key := by
  unfold required
  rw [get?_prune_of_whole h]

theorem text?_prune (h : Whole drop [key]) (m : Mapping) (path : List String) :
    (m.prune drop).text? path key = m.text? path key := by
  unfold text?
  rw [get?_prune_of_whole h]

theorem flag?_prune (h : Whole drop [key]) (m : Mapping) (path : List String) (standard : Bool) :
    (m.prune drop).flag? path key standard = m.flag? path key standard := by
  unfold flag?
  rw [get?_prune_of_whole h]

theorem editSection_prune (h : drop [key] = false)
    (hf : ∀ fields : Mapping, f' (fields.prune (below drop key)) = (f fields).map (prune (below drop key)))
    (m : Mapping) : (m.prune drop).editSection key f' = (m.editSection key f).map (prune drop) := by
  unfold editSection
  rw [fields?_prune h]
  cases m.fields? key with
  | error e => rfl
  | ok fields =>
    show (f' (fields.prune (below drop key)) >>= _) = (f fields >>= _).map _
    rw [hf]
    cases f fields with
    | error e => rfl
    | ok fields' => exact congrArg Except.ok (prune_insert h m (.mapping fields')).symm

/-- An edit along a kept chain of keys sees what pruning leaves in its section. -/
theorem editAt_prune (h : Kept drop path)
    (hf : ∀ drop' : List String → Bool, (∀ q, drop' q = drop (path ++ q)) →
      ∀ fields : Mapping, f' (fields.prune drop') = (f fields).map (prune drop')) (m : Mapping) :
    editAt path f' (m.prune drop) = (editAt path f m).map (prune drop) := by
  induction path generalizing drop m with
  | nil => exact hf drop (fun _ => rfl) m
  | cons key path ih => exact editSection_prune h.head (ih h.tail fun drop' hdrop => hf drop' hdrop) m

end Mapping

namespace Value
variable {drop : List String → Bool}

mutual

theorem WellKeyed.prune : ∀ {v : Value} {drop : List String → Bool}, v.WellKeyed → (v.prune drop).WellKeyed
  | .mapping m, _, h => ⟨h.1.sublist (Mapping.keys_prune_sublist m), EntriesWellKeyed.pruneEntries h.2⟩
  | .list _, _, h => h
  | .null, _, _ | .bool _, _, _ | .number _, _, _ | .string _, _, _ | .regex _, _, _ | .predicate _, _, _ => trivial
termination_by structural v => v

theorem EntriesWellKeyed.pruneEntries : ∀ {es : List (String × Value)} {drop : List String → Bool}, EntriesWellKeyed es →
    EntriesWellKeyed (pruneEntries drop es)
  | [], _, _ => trivial
  | (key, v) :: rest, drop, h => by
    have hrest : EntriesWellKeyed (Value.pruneEntries drop rest) := EntriesWellKeyed.pruneEntries h.2
    rw [Value.pruneEntries]
    split
    · exact hrest
    · exact ⟨h.1.prune, hrest⟩
termination_by structural es => es

end

end Value
end AssetPlan
