import AssetPlan.Proofs.Value.Equality
import AssetPlan.Proofs.Value.Leaves
import AssetPlan.Proofs.Value.Pattern

/-! # Equality of values is an equivalence

On trees without a key twice, equality is an equivalence. It looks through the order of the keys at any depth, since
equal mappings are those that agree under every key (`equal_mapping_iff`), and it compares lists place by place
(`equal_list_iff`). Equal values are read as the same pattern: a regular expression is its source, and two predicates
are equal only if they are copies of one. -/

namespace AssetPlan.Value
variable {key : List String}

theorem equal_list_iff {as bs : List Value} : (Value.list as).equal (.list bs) = true ↔
    as.length = bs.length ∧ ∀ (i : Nat) (a b : Value), as[i]? = some a → bs[i]? = some b → a.equal b = true := by
  show allEqual as bs = true ↔ _
  induction as generalizing bs with
  | nil => cases bs <;> simp [allEqual]
  | cons a as ih =>
    cases bs with
    | nil => simp [allEqual]
    | cons b bs =>
      rw [allEqual, Bool.and_eq_true, ih, List.length_cons, List.length_cons, Nat.succ_inj, and_left_comm]
      refine and_congr_right fun _ => ⟨fun ⟨hab, h⟩ i => ?_, fun h => ⟨h 0 a b rfl rfl, fun i => h (i + 1)⟩⟩
      cases i with
      | zero =>
        rintro _ _ ⟨⟩ ⟨⟩
        exact hab
      | succ i => exact h i

/-! ### Symmetry and transitivity -/

mutual

theorem equal_symm : ∀ {a b : Value}, a.WellKeyed → b.WellKeyed → a.equal b = true → b.equal a = true
  | .list as, b, hw, hw', h => by
    cases b with
    | list bs => exact allEqual_symm hw hw' h
    | _ => cases h
  | .mapping es, b, hw, hw', h => by
    cases b with
    | mapping es' =>
      -- By look-ups, since the entries may stand in another order. The recursion is over those of the first.
      refine (equal_mapping_iff hw'.1 hw.1).mpr fun key => ?_
      have hkey := (equal_mapping_iff hw.1 hw'.1).mp h key
      cases ha : Entries.get? es key <;> cases hb : Entries.get? es' key <;> rw [ha, hb] at hkey <;> cases hkey
      case some a b hab => exact .some (entry_equal_symm hw.2 (Entries.mem_of_get?_eq_some ha) (hw'.get? hb) hab)
      case none => exact .none
    | _ => cases h
  | .number x, b, _, _, h => by
    cases b with
    | number y => exact Number.equal_symm h
    | _ => cases h
  | .null, b, _, _, h | .bool _, b, _, _, h | .string _, b, _, _, h | .regex _, b, _, _, h
  | .predicate _, b, _, _, h => by cases b <;> simp_all [equal, isNull]
termination_by structural a => a

theorem allEqual_symm : ∀ {as bs : List Value}, AllWellKeyed as → AllWellKeyed bs →
    allEqual as bs = true → allEqual bs as = true
  | [], [], _, _, _ => rfl
  | a :: as, b :: bs, hw, hw', h => by
    obtain ⟨hab, h⟩ := (Bool.and_eq_true _ _).mp h
    rw [allEqual, equal_symm hw.1 hw'.1 hab, allEqual_symm hw.2 hw'.2 h]
    rfl
termination_by structural as => as

theorem entry_equal_symm : ∀ {es : List (String × Value)}, EntriesWellKeyed es → ∀ {k a b}, (k, a) ∈ es →
    b.WellKeyed → a.equal b = true → b.equal a = true
  | [], _, _, _, _, hm, _, _ => nomatch hm
  | (_, v) :: rest, hw, _, _, _, hm, hb, h => by
    rcases List.mem_cons.mp hm with hm | hm
    · cases hm
      exact equal_symm hw.1 hb h
    · exact entry_equal_symm hw.2 hm hb h
termination_by structural es => es

end

mutual

theorem equal_trans : ∀ {a b c : Value}, a.equal b = true → b.equal c = true → a.equal c = true
  | .list as, .list bs, c, h, h' => by
    cases c with
    | list cs => exact allEqual_trans h h'
    | _ => cases h'
  | .mapping es, .mapping es', c, h, h' => by
    cases c with
    | mapping es'' =>
      obtain ⟨hlength, h⟩ := (Bool.and_eq_true _ _).mp h
      obtain ⟨hlength', h'⟩ := (Bool.and_eq_true _ _).mp h'
      have hlengths : es.length = es''.length := (beq_iff_eq.mp hlength).trans (beq_iff_eq.mp hlength')
      simp [equal, hlengths, entriesWithin_trans h h']
    | _ => cases h'
  | .number x, .number y, c, h, h' => by
    cases c with
    | number z => exact Number.equal_trans h h'
    | _ => cases h'
  | .null, b, c, h, h' | .bool _, b, c, h, h' | .string _, b, c, h, h' | .regex _, b, c, h, h'
  | .predicate _, b, c, h, h' => by cases b <;> cases c <;> simp_all [equal, isNull]
termination_by structural a => a

theorem allEqual_trans : ∀ {as bs cs : List Value}, allEqual as bs = true → allEqual bs cs = true →
    allEqual as cs = true
  | [], [], _, _, h' => h'
  | a :: as, b :: bs, c :: cs, h, h' => by
    obtain ⟨hab, h⟩ := (Bool.and_eq_true _ _).mp h
    obtain ⟨hbc, h'⟩ := (Bool.and_eq_true _ _).mp h'
    rw [allEqual, equal_trans hab hbc, allEqual_trans h h']
    rfl
termination_by structural as => as

theorem entriesWithin_trans : ∀ {es m m' : List (String × Value)}, entriesWithin es m = true →
    entriesWithin m m' = true → entriesWithin es m' = true
  | [], _, _, _, _ => rfl
  | (key, a) :: rest, m, m', h, h' => by
    obtain ⟨hfirst, hrest⟩ := List.forall_mem_cons.mp (entriesWithin_iff.mp h)
    obtain ⟨v, hv, hav⟩ := hfirst
    obtain ⟨w, hw, hvw⟩ := entriesWithin_iff.mp h' _ (Entries.mem_of_get?_eq_some hv)
    rw [entriesWithin, hw, entriesWithin_trans (entriesWithin_iff.mpr hrest) h']
    simp [equal_trans hav hvw]
termination_by structural es => es

end

/-! ### The order of keys -/

/-- The trees that one becomes when the entries of its mappings are put in another order, at any depth. -/
inductive Reordered : Value → Value → Prop
  | refl (v : Value) : Reordered v v
  | trans {u v w : Value} (h : Reordered u v) (h' : Reordered v w) : Reordered u w
  | perm {m m' : Mapping} (h : m.Perm m') : Reordered (.mapping m) (.mapping m')
  | item {v v' : Value} (before after : List Value) (h : Reordered v v') :
    Reordered (.list (before ++ v :: after)) (.list (before ++ v' :: after))
  | entry {v v' : Value} (before : Mapping) (key : String) (after : Mapping) (h : Reordered v v') :
    Reordered (.mapping (before ++ (key, v) :: after)) (.mapping (before ++ (key, v') :: after))

theorem allEqual_append {as bs cs : List Value} (hw : AllWellKeyed as) (h : allEqual bs cs = true) :
    allEqual (as ++ bs) (as ++ cs) = true := by
  induction as with
  | nil => exact h
  | cons a as ih =>
    rw [List.cons_append, List.cons_append, allEqual, equal_refl hw.1, ih hw.2]
    rfl

theorem Reordered.wellKeyed {v v' : Value} (h : v.Reordered v') (hw : v.WellKeyed) : v'.WellKeyed := by
  induction h with
  | refl => exact hw
  | trans _ _ ih ih' => exact ih' (ih hw)
  | perm h =>
    have hm := wellKeyed_mapping_iff.mp hw
    exact wellKeyed_mapping_iff.mpr ⟨hm.wellKeyed.perm h, fun e he => hm.values e (h.mem_iff.mpr he)⟩
  | item before after _ ih =>
    simp only [wellKeyed_list_iff, List.forall_mem_append, List.forall_mem_cons] at hw ⊢
    exact ⟨hw.1, ih hw.2.1, hw.2.2⟩
  | entry before key after _ ih =>
    obtain ⟨hkeys, hvalues⟩ := wellKeyed_mapping_iff.mp hw
    rw [List.forall_mem_append, List.forall_mem_cons] at hvalues
    refine wellKeyed_mapping_iff.mpr ⟨?_, ?_⟩
    · simpa [Entries.WellKeyed, Entries.keys] using hkeys
    · rw [List.forall_mem_append, List.forall_mem_cons]
      exact ⟨hvalues.1, ih hvalues.2.1, hvalues.2.2⟩

theorem Reordered.equal {v v' : Value} (h : v.Reordered v') (hw : v.WellKeyed) : v.equal v' = true := by
  induction h with
  | refl => exact equal_refl hw
  | trans h _ ih ih' => exact equal_trans (ih hw) (ih' (h.wellKeyed hw))
  | perm h => exact equal_of_get?_eq hw ((perm h).wellKeyed hw) (Entries.get?_perm hw.1 h)
  | item before after _ ih =>
    have hitems := wellKeyed_list_iff.mp hw
    rw [List.forall_mem_append, List.forall_mem_cons] at hitems
    refine allEqual_append (wellKeyed_list_iff.mpr hitems.1) ?_
    rw [allEqual, ih hitems.2.1, allEqual_refl (wellKeyed_list_iff.mpr hitems.2.2)]
    rfl
  | @entry v v' before key after h ih =>
    have hw' := (entry before key after h).wellKeyed hw
    have hv : v.WellKeyed := (wellKeyed_mapping_iff.mp hw).values (key, v) (by simp)
    refine (equal_mapping_iff hw.1 hw'.1).mpr fun k => ?_
    -- Under any other key stands what stood there, and that is equal to itself.
    have hsame : ∀ {u}, Entries.get? (before ++ (key, v) :: after) k = some u → u.equal u = true :=
      fun hu => equal_refl (hw.get? hu)
    rw [Entries.get?_append, Entries.get?_cons] at hsame ⊢
    rw [Entries.get?_append, Entries.get?_cons]
    cases hbefore : Entries.get? before k with
    | some u => exact .some (hsame (by rw [hbefore]; rfl))
    | none =>
      rw [hbefore, Option.none_or] at hsame
      rw [Option.none_or, Option.none_or]
      by_cases hk : key = k
      · rw [if_pos hk, if_pos hk]
        exact .some (ih hv)
      · rw [if_neg hk] at hsame
        rw [if_neg hk, if_neg hk]
        cases hafter : Entries.get? after k with
        | none => exact .none
        | some u => exact .some (hsame hafter)

/-! ### Patterns -/

/-- The leaves of two values that a caller makes: regular expressions from their sources alone, and predicates that
    are copies of one if they have one identity. -/
structure Made (ls ls' : List Value) : Prop where
  noFlags : ∀ r, .regex r ∈ ls → r.ignoreCase = false
  noFlags' : ∀ r, .regex r ∈ ls' → r.ignoreCase = false
  copies : ∀ p q, .predicate p ∈ ls → .predicate q ∈ ls' → p.identity = q.identity → p = q

theorem Made.mono {ls ls' part part' : List Value} (h : Made ls ls') (hpart : part ⊆ ls) (hpart' : part' ⊆ ls') :
    Made part part' where
  noFlags r hr := h.noFlags r (hpart hr)
  noFlags' r hr := h.noFlags' r (hpart' hr)
  copies p q hp hq := h.copies p q (hpart hp) (hpart' hq)

mutual

theorem toPattern_of_equal : ∀ {a b : Value}, Made a.leaves b.leaves → a.equal b = true →
    a.toPattern key = b.toPattern key
  | .list as, b, hmade, h => by
    cases b with
    | list bs => exact congrArg (Except.map Pattern.any) (toPatterns_of_allEqual hmade h)
    | _ => cases h
  | .regex r, b, hmade, h => by
    cases b with
    | regex r' =>
      have hcase : r.ignoreCase = r'.ignoreCase :=
        (hmade.noFlags r (List.mem_singleton_self _)).trans (hmade.noFlags' r' (List.mem_singleton_self _)).symm
      rw [Regex.eq_of_source (beq_iff_eq.mp h) hcase]
    | _ => cases h
  | .predicate p, b, hmade, h => by
    cases b with
    | predicate q =>
      rw [hmade.copies p q (List.mem_singleton_self _) (List.mem_singleton_self _) (beq_iff_eq.mp h)]
    | _ => cases h
  | .string s, b, _, h => by
    cases b with
    | string t => rw [beq_iff_eq.mp h]
    | _ => cases h
  | .null, b, _, h | .bool _, b, _, h | .number _, b, _, h | .mapping _, b, _, h => by
    cases b <;> first | rfl | cases h
termination_by structural a => a

theorem toPatterns_of_allEqual : ∀ {as bs : List Value}, Made (allLeaves as) (allLeaves bs) →
    allEqual as bs = true → toPatterns key as = toPatterns key bs
  | [], [], _, _ => rfl
  | a :: as, b :: bs, hmade, h => by
    obtain ⟨hab, h⟩ := (Bool.and_eq_true _ _).mp h
    have hfirst : Made a.leaves b.leaves := hmade.mono (List.subset_append_left _ _) (List.subset_append_left _ _)
    have hrest : Made (allLeaves as) (allLeaves bs) :=
      hmade.mono (List.subset_append_right _ _) (List.subset_append_right _ _)
    rw [toPatterns, toPatterns, toPattern_of_equal hfirst hab, toPatterns_of_allEqual hrest h]
termination_by structural as => as

end

/-- Equality is an equivalence that the order of keys does not change, at whatever depth: lists are equal place by place,
    and mappings key by key. Equal values are read as the same pattern or refused for the same fault. -/
theorem equal_sound :
    (∀ a : Value, a.WellKeyed → a.equal a = true) ∧
    (∀ a b : Value, a.WellKeyed → b.WellKeyed → a.equal b = b.equal a) ∧
    (∀ a b c : Value, a.equal b = true → b.equal c = true → a.equal c = true) ∧
    (∀ a a' b : Value, a.WellKeyed → a.Reordered a' → a'.equal b = a.equal b ∧ b.equal a' = b.equal a) ∧
    (∀ as bs : List Value, (Value.list as).equal (.list bs) = true ↔
      as.length = bs.length ∧ ∀ (i : Nat) (a b : Value), as[i]? = some a → bs[i]? = some b → a.equal b = true) ∧
    (∀ m m' : Mapping, (Value.mapping m).WellKeyed → (Value.mapping m').WellKeyed →
      ((Value.mapping m).equal (.mapping m') = true ↔
        ∀ key, Option.Rel (fun v w => v.equal w = true) (Entries.get? m key) (Entries.get? m' key))) ∧
    ∀ a b : Value, Made a.leaves b.leaves → a.equal b = true → ∀ key, a.toPattern key = b.toPattern key := by
  refine ⟨fun a => equal_refl, fun a b hw hw' => ?symm, fun a b c => equal_trans, fun a a' b hw h => ?order,
    fun as bs => equal_list_iff, fun m m' hw hw' => equal_mapping_iff hw.1 hw'.1, fun a b hmade h key => toPattern_of_equal hmade h⟩
  case symm => exact Bool.eq_iff_iff.mpr ⟨equal_symm hw hw', equal_symm hw' hw⟩
  case order =>
    have hto : a.equal a' = true := h.equal hw
    have hback : a'.equal a = true := equal_symm hw (h.wellKeyed hw) hto
    exact ⟨Bool.eq_iff_iff.mpr ⟨equal_trans hto, equal_trans hback⟩,
      Bool.eq_iff_iff.mpr ⟨(equal_trans · hback), (equal_trans · hto)⟩⟩

/-- Two bundles of scripts. -/
def writtenBundles : Value :=
  .mapping [("joinTo", .mapping [("app.js", .list [.string "app/*", .string "lib/*"]), ("vendor.js", .string "/^vendor/")]),
    ("order", .null)]

/-- The same bundles with the keys turned round at both levels. -/
def turnedBundles : Value :=
  .mapping [("order", .null),
    ("joinTo", .mapping [("vendor.js", .string "/^vendor/"), ("app.js", .list [.string "app/*", .string "lib/*"])])]

/-- The predicate of all paths below `app`. -/
def appPaths : Predicate := ⟨0, (·.startsWith "app/")⟩

theorem equal_sound_turnedBundles : writtenBundles.equal turnedBundles = true ∧
    turnedBundles.equal writtenBundles = true ∧
    (Value.list [.string "app/*", .string "lib/*"]).equal (.list [.string "lib/*", .string "app/*"]) = false ∧
    (Value.mapping [("order", .null)]).equal (.mapping [("paths", .null)]) = false ∧
    ∃ r, ofSource ["files"] "^vendor" = .ok (.regex r) ∧
      (Value.list [.regex r, .predicate appPaths]).toPattern ["files"] = .ok (.any [.regex r, .predicate appPaths]) ∧
      (Value.list [.regex r, .predicate appPaths, writtenBundles]).toPattern ["files"] =
        (Value.list [.regex r, .predicate appPaths, turnedBundles]).toPattern ["files"] := by
  obtain ⟨hrefl, hsymm, -, horder, hlists, hmappings, hpatterns⟩ := equal_sound
  have hwritten : writtenBundles.WellKeyed := by decide
  have hturned : turnedBundles.WellKeyed := by decide
  have hreordered : writtenBundles.Reordered turnedBundles :=
    .trans (.perm (.swap ..)) (.entry [("order", .null)] "joinTo" [] (.perm (.swap ..)))
  have hbundles : writtenBundles.equal turnedBundles = true :=
    (horder _ _ writtenBundles hwritten hreordered).2.trans (hrefl _ hwritten)
  obtain ⟨v, hv⟩ := exists_ok_of_isOk (x := ofSource ["files"] "^vendor") (by decide +kernel)
  obtain ⟨r, rfl, -, hcase⟩ := ofSource_eq_ok_iff.mp hv
  have hmade : Made (Value.list [.regex r, .predicate appPaths, writtenBundles]).leaves
      (Value.list [.regex r, .predicate appPaths, turnedBundles]).leaves := by
    constructor <;> simp [leaves, allLeaves, writtenBundles, turnedBundles, hcase]
  have hequal : (Value.list [.regex r, .predicate appPaths, writtenBundles]).equal
      (.list [.regex r, .predicate appPaths, turnedBundles]) = true := by
    simp [equal, allEqual, hbundles]
  refine ⟨hbundles, (hsymm _ _ hturned hwritten).trans hbundles, Bool.eq_false_iff.mpr fun h => ?list,
    Bool.eq_false_iff.mpr fun h => ?mapping, r, hv, rfl, hpatterns _ _ hmade hequal _⟩
  case list =>
    have hfirst := ((hlists _ _).mp h).2 0 (.string "app/*") (.string "lib/*") rfl rfl
    exact absurd hfirst (by decide)
  case mapping => cases (hmappings _ _ (by decide) (by decide)).mp h "order"

end AssetPlan.Value
