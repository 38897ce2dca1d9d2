import AssetPlan.Matcher
import AssetPlan.Proofs.Regex.Exact

/-! # Globs and their own text

A glob accepts the path that equals its text once backslashes are separators. A text without a backslash is such a
path itself; in one with a backslash the two sides of the comparison differ, and only a match can still accept it.
A text without wildcards has no such match: its backslashes are escapes, and it spells a shorter path
(`accepts_iff_of_spells`). -/

namespace AssetPlan.Glob
variable {source path : String}

/-! ### Separators -/

theorem toList_withSeparators (path : String) :
    (withSeparators path).toList = path.toList.map fun c => if c = '\\' then '/' else c :=
  String.toList_map

theorem not_mem_withSeparators (path : String) : '\\' ∉ (withSeparators path).toList := by
  rw [toList_withSeparators, List.mem_map]
  rintro ⟨c, -, hc⟩
  split at hc
  · exact absurd hc (by decide)
  · contradiction

theorem length_withSeparators (path : String) : (withSeparators path).toList.length = path.toList.length := by
  rw [toList_withSeparators, List.length_map]

theorem withSeparators_eq_self_iff : withSeparators path = path ↔ '\\' ∉ path.toList := by
  constructor
  · intro h
    rw [← h]
    exact not_mem_withSeparators path
  · intro h
    have hsame : ∀ c ∈ path.toList, (if c = '\\' then '/' else c) = c := fun c hc =>
      if_neg fun heq : c = '\\' => h (heq ▸ hc)
    rw [← String.toList_inj, toList_withSeparators, List.map_congr_left hsame, List.map_id']

/-! ### Texts without wildcards -/

/-- The characters that begin or end something other than themselves. -/
def wildcards : List Char := ['?', '*', '[', '\x7b', '\x7d']

/-- A text without wildcards spells some characters: each stands for itself, or behind a backslash. -/
inductive Spells : List Char → List Char → Prop
  | nil : Spells [] []
  | plain {c : Char} {text chars : List Char} (hescape : c ≠ '\\') (hplain : c ∉ wildcards) (h : Spells text chars) :
    Spells (c :: text) (c :: chars)
  | escaped (c : Char) {text chars : List Char} (h : Spells text chars) : Spells ('\\' :: c :: text) (c :: chars)

variable {text chars : List Char} {p : Progress} {before : Option Char} {fuel : Nat}

namespace Spells

theorem length_le (h : Spells text chars) : chars.length ≤ text.length := by
  induction h with
  | nil => exact Nat.le_refl _
  | plain _ _ _ ih => exact Nat.succ_le_succ ih
  | escaped _ _ ih => exact Nat.succ_le_succ (Nat.le_succ_of_le ih)

/-- An escape makes a text longer than what it spells. -/
theorem length_lt (h : Spells text chars) (hescape : '\\' ∈ text) : chars.length < text.length := by
  induction h with
  | nil => cases hescape
  | plain hc _ _ ih =>
    rcases List.mem_cons.mp hescape with rfl | hescape
    · exact absurd rfl hc
    · exact Nat.succ_lt_succ (ih hescape)
  | escaped _ h _ => exact Nat.succ_lt_succ (Nat.lt_succ_of_le h.length_le)

end Spells

theorem element?_plain {c : Char} {rest : List Char} (hescape : c ≠ '\\') (hplain : c ∉ wildcards) (hp : p.choices = []) :
    element? p before c rest = some (p.push (.literal c), rest) := by
  unfold element?
  split
  all_goals first | exact absurd (by decide) hplain | exact absurd rfl hescape | skip
  · -- A comma stands for itself as long as no choice is open.
    rw [hp]
  · rfl

theorem elements?_cons {c : Char} {rest after : List Char} {p' : Progress} (h : element? p before c rest = some (p', after)) :
    elements? p before (fuel + 1) (c :: rest) = elements? p' (some (lastTaken c rest after)) fuel after := by
  rw [elements?, h]
  rfl

/-- A text without wildcards is read as what it spells. -/
theorem elements?_of_spells (h : Spells text chars) (hfuel : text.length ≤ fuel) (hp : p.choices = []) :
    elements? p before fuel text = some { p with tokens := (chars.map GlobToken.literal).reverse ++ p.tokens } := by
  induction h generalizing p before fuel with
  | nil => cases fuel <;> rfl
  | plain hescape hplain h ih =>
    cases fuel with
    | zero => cases hfuel
    | succ fuel =>
      rw [elements?_cons (element?_plain hescape hplain hp), ih (p := p.push _) (Nat.le_of_succ_le_succ hfuel) hp]
      simp [Progress.push]
  | escaped c h ih =>
    cases fuel with
    | zero => cases hfuel
    | succ fuel =>
      rw [elements?_cons rfl, ih (p := p.push _) (Nat.le_of_succ_le (Nat.le_of_succ_le_succ hfuel)) hp]
      simp [Progress.push]

theorem tokens?_of_spells (h : Spells source.toList chars) : tokens? source = some (chars.map .literal) := by
  unfold tokens?
  rw [elements?_of_spells h (Nat.le_of_eq String.length_toList) rfl]
  simp

/-! ### Matches of a text without wildcards -/

/-- The bytes of a text. -/
def bytesIn (path : String) : List Nat := path.toUTF8.toList.map UInt8.toNat

theorem loop_toList (bytes : ByteArray) (i : Nat) (done : List UInt8) :
    ByteArray.toList.loop bytes i done = done.reverse ++ bytes.data.toList.drop i := by
  fun_induction ByteArray.toList.loop bytes i done with
  | case1 i done hi ih =>
    have hlength : i < bytes.data.toList.length := hi
    rw [ih, List.drop_eq_getElem_cons hlength]
    simp [ByteArray.get!, hi]
  | case2 i done hi =>
    rw [List.drop_eq_nil_of_le (Nat.le_of_not_lt hi), List.append_nil]

theorem bytesIn_eq (path : String) : bytesIn path = path.toByteArray.data.toList.map UInt8.toNat := by
  unfold bytesIn ByteArray.toList
  rw [loop_toList]
  rfl

theorem bytesIn_inj {path path' : String} : bytesIn path = bytesIn path' ↔ path = path' := by
  rw [bytesIn_eq, bytesIn_eq, List.map_inj_right fun _ _ => UInt8.toNat_inj.mp, Array.toList_inj]
  exact ⟨fun h => String.toByteArray_inj.mp (ByteArray.ext h), fun h => h ▸ rfl⟩

theorem bytesIn_append (path path' : String) : bytesIn (path ++ path') = bytesIn path ++ bytesIn path' := by
  simp only [bytesIn_eq, String.toByteArray_append, ByteArray.data_append, Array.toList_append, List.map_append]

theorem flatMap_bytesOf (chars : List Char) : chars.flatMap bytesOf = bytesIn (String.ofList chars) := by
  induction chars with
  | nil => simp [bytesIn_eq]
  | cons c chars ih =>
    have hsplit : String.ofList (c :: chars) = String.singleton c ++ String.ofList chars := by
      rw [← String.toList_inj]
      simp
    rw [List.flatMap_cons, ih, hsplit, bytesIn_append]
    rfl

open Regex

theorem ofExpr_of_isEmpty {e : Expr} (h : isEmpty e = true) : Program.ofExpr e = #[] := by
  cases e with
  | empty => rfl
  | _ => cases h

/-- The program of tokens is that of each one after the other. -/
theorem ofExpr_exprOfAll_cons (t : GlobToken) (rest : List GlobToken) :
    Program.ofExpr (exprOfAll (t :: rest)) = Program.ofExpr (exprOf t) ++ Program.ofExpr (exprOfAll rest) := by
  rw [exprOfAll]
  split
  · rename_i hfirst
    rw [ofExpr_of_isEmpty hfirst, Array.empty_append]
  · split
    · rename_i hothers
      rw [ofExpr_of_isEmpty hothers, Array.append_empty]
    · rw [Program.ofExpr, Program.ofAll, Program.ofAll, Program.ofAll, Array.append_empty]

theorem ofExpr_literals (chars : List Char) :
    Program.ofExpr (exprOfAll (chars.map .literal)) = Program.takes (chars.flatMap bytesOf) := by
  induction chars with
  | nil => rfl
  | cons c chars ih =>
    rw [List.map_cons, ofExpr_exprOfAll_cons, ih, exprOf, Program.ofExpr_sequence, Program.ofAll_literals,
      List.flatMap_cons, Program.takes_append]

theorem exprOfGlob_literals (chars : List Char) : exprOfGlob (chars.map .literal) = exprOfAll (chars.map .literal) := by
  match chars with
  | [] => rfl
  | [_] => rfl
  | _ :: _ :: _ => rfl

/-- A glob of characters matches what they spell and nothing else. -/
theorem matchesWhole_literals : matchesWhole (chars.map .literal) path = true ↔ path.toList = chars := by
  have hprogram : Program.ofExpr (.concat [.assertion .textStart, exprOfGlob (chars.map .literal), .assertion .textEnd]) =
      Program.exactly (chars.flatMap bytesOf) := by
    rw [exprOfGlob_literals]
    simp [Program.ofExpr, Program.ofAll, ofExpr_literals, Program.exactly]
  have hbytes : path.toUTF8.toList.map UInt8.toNat = bytesIn path := rfl
  unfold matchesWhole
  rw [hprogram, Program.matchesIn_exactly, flatMap_bytesOf, hbytes, bytesIn_inj, ← String.toList_inj, String.toList_ofList]

/-! ### Accepted paths -/

theorem accepts_iff : accepts source path = true ↔ withSeparators path = source ∨
    ∃ tokens, tokens? source = some tokens ∧ matchesWhole tokens (withSeparators path) = true := by
  unfold accepts
  simp [Option.any_eq_true]

/-- A text without wildcards accepts two paths at most: the one that it is and the one that it spells. -/
theorem accepts_iff_of_spells (h : Spells source.toList chars) :
    accepts source path = true ↔ withSeparators path = source ∨ (withSeparators path).toList = chars := by
  rw [accepts_iff, tokens?_of_spells h]
  simp [matchesWhole_literals]

/-- A glob without a backslash accepts its own text. One that is not well-formed accepts nothing else, up to
    backslashes for separators, and with a backslash nothing at all. A text without wildcards but with a backslash does
    not accept itself either. -/
theorem accepts_own_text (source : String) :
    ('\\' ∉ source.toList → Matcher.accepts source (.pattern (.glob source)) = true) ∧
    (tokens? source = none → ∀ path, Matcher.accepts path (.pattern (.glob source)) = true ↔
      '\\' ∉ source.toList ∧ withSeparators path = source) ∧
    ∀ chars, Spells source.toList chars → '\\' ∈ source.toList →
      Matcher.accepts source (.pattern (.glob source)) = false := by
  have hnormal : ∀ {path}, withSeparators path = source → '\\' ∉ source.toList := by
    rintro path rfl
    exact not_mem_withSeparators path
  refine ⟨fun hplain => ?_, fun hmalformed path => ?_, fun chars hspells hescape => ?_⟩
  · exact accepts_iff.mpr (.inl (withSeparators_eq_self_iff.mpr hplain))
  · refine accepts_iff.trans ?_
    rw [hmalformed]
    constructor
    · rintro (hsame | ⟨tokens, htokens, -⟩)
      · exact ⟨hnormal hsame, hsame⟩
      · cases htokens
    · rintro ⟨-, hsame⟩
      exact .inl hsame
  · refine eq_false_of_ne_true fun haccepts => ?_
    rcases (accepts_iff_of_spells hspells).mp haccepts with hsame | hmatches
    · exact hnormal hsame hescape
    · -- What a text with an escape spells is shorter than the text.
      have hlength := length_withSeparators source
      rw [hmatches] at hlength
      exact absurd hlength (Nat.ne_of_lt (hspells.length_lt hescape))

/-- An open class is accepted as it stands, with either separator. -/
theorem accepts_own_text_openClass : Matcher.accepts "app\\[x" (.pattern (.glob "app/[x")) = true :=
  ((accepts_own_text "app/[x").2.1 (Option.isNone_iff_eq_none.mp (by decide +kernel)) "app\\[x").mpr
    ⟨by decide +kernel, by decide +kernel⟩

/-- A text that ends in an escape is no glob, and it does not accept itself. -/
theorem openEscape_rejected : ¬ ∀ source : String, Matcher.accepts source (.pattern (.glob source)) = true :=
  fun h => absurd (h "app\\") (by decide +kernel)

end AssetPlan.Glob
