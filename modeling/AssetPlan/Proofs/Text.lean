import AssetPlan.Text.Blank
import AssetPlan.Text.Split

/-! # Texts cut at separators and trimmed

A text cut at every separator has the pieces of both sides of each separator, and none in a piece. Cut at the last
separator only, it is read from its end: what is taken up to there is what stands behind. A trimmed text has a
character that is no blank at either end, if it has one at all. -/

namespace AssetPlan.Text
variable {isSeparator : Char → Bool} {c separator : Char} {cs front behind piece : List Char}

/-! ### Cut at every separator -/

theorem splitBy_append (hc : isSeparator c = true) (front behind : List Char) :
    splitBy isSeparator (front ++ c :: behind) = splitBy isSeparator front ++ splitBy isSeparator behind := by
  induction front with
  | nil => exact if_pos hc
  | cons d front ih =>
    rw [List.cons_append, splitBy, ih, splitBy]
    split
    · rfl
    · cases hpieces : splitBy isSeparator front with
      | nil => exact absurd hpieces (splitBy_ne_nil _ _)
      | cons piece pieces => rfl

theorem splitBy_of_none (h : ∀ c ∈ cs, isSeparator c = false) : splitBy isSeparator cs = [cs] := by
  induction cs with
  | nil => rfl
  | cons c rest ih =>
    rw [splitBy, h c List.mem_cons_self, ih fun d hd => h d (List.mem_cons_of_mem c hd)]
    rfl

theorem not_isSeparator_of_mem_splitBy (h : piece ∈ splitBy isSeparator cs) : ∀ c ∈ piece, isSeparator c = false := by
  induction cs generalizing piece with
  | nil =>
    obtain rfl := List.mem_singleton.mp h
    exact nofun
  | cons c rest ih =>
    rw [splitBy] at h
    split at h
    · rcases List.mem_cons.mp h with rfl | h
      · exact nofun
      · exact ih h
    · rename_i hc
      cases hpieces : splitBy isSeparator rest with
      | nil => exact absurd hpieces (splitBy_ne_nil _ _)
      | cons first pieces =>
        rw [hpieces] at h ih
        rcases List.mem_cons.mp h with rfl | h
        · exact List.forall_mem_cons.mpr ⟨Bool.eq_false_iff.mpr hc, ih List.mem_cons_self⟩
        · exact ih (List.mem_cons_of_mem first h)

/-- A piece has no separator, and stands between separators or the ends of the text. -/
def IsPiece (isSeparator : Char → Bool) (piece cs : List Char) : Prop :=
  (∀ c ∈ piece, isSeparator c = false) ∧ ∃ before behind, cs = before ++ piece ++ behind ∧
    (∀ c ∈ before.getLast?, isSeparator c = true) ∧ ∀ c ∈ behind.head?, isSeparator c = true

theorem mem_splitBy_of_isPiece (h : IsPiece isSeparator piece cs) : piece ∈ splitBy isSeparator cs := by
  obtain ⟨hpiece, before, behind, rfl, hbefore, hbehind⟩ := h
  have hfirst : piece ∈ splitBy isSeparator (piece ++ behind) := by
    cases behind with
    | nil => simp [splitBy_of_none hpiece]
    | cons c rest => simp [splitBy_append (hbehind c rfl), splitBy_of_none hpiece]
  rcases List.eq_nil_or_concat before with rfl | ⟨front, c, rfl⟩
  · exact hfirst
  · have hcut : front.concat c ++ piece ++ behind = front ++ c :: (piece ++ behind) := by simp
    rw [hcut, splitBy_append (hbefore c (by simp))]
    exact List.mem_append_right _ hfirst

/-- The pieces of a text are what stands before its first separator, and those of the text behind it. -/
theorem isPiece_of_mem_splitBy (h : piece ∈ splitBy isSeparator cs) : IsPiece isSeparator piece cs := by
  refine ⟨not_isSeparator_of_mem_splitBy h, ?_⟩
  induction hlength : cs.length using Nat.strongRecOn generalizing cs with
  | ind n ih =>
    cases hfirst : cs.find? isSeparator with
    | none =>
      rw [splitBy_of_none fun c hc => by simpa using List.find?_eq_none.mp hfirst c hc] at h
      obtain rfl := List.mem_singleton.mp h
      exact ⟨[], [], by simp, nofun, nofun⟩
    | some c =>
      obtain ⟨hc, front, rest, rfl, hfront⟩ := List.find?_eq_some_iff_append.mp hfirst
      rw [splitBy_append hc, splitBy_of_none fun d hd => by simpa using hfront d hd] at h
      rcases List.mem_append.mp h with h | h
      · obtain rfl := List.mem_singleton.mp h
        exact ⟨[], c :: rest, by simp, nofun, fun d hd => Option.some.inj hd ▸ hc⟩
      · have hshorter : rest.length < n := by
          rw [← hlength, List.length_append, List.length_cons]
          omega
        obtain ⟨before, behind, rfl, hbefore, hbehind⟩ := ih _ hshorter h rfl
        -- In front of a later piece stands a separator, the first of the text if no other does.
        refine ⟨front ++ c :: before, behind, by simp, fun d hd => ?_, hbehind⟩
        rw [List.getLast?_append, List.getLast?_cons] at hd
        cases hlast : before.getLast? with
        | none =>
          rw [hlast] at hd
          exact Option.some.inj hd ▸ hc
        | some e =>
          rw [hlast] at hd
          exact Option.some.inj hd ▸ hbefore e hlast

theorem mem_splitBy_iff : piece ∈ splitBy isSeparator cs ↔ IsPiece isSeparator piece cs :=
  ⟨isPiece_of_mem_splitBy, mem_splitBy_of_isPiece⟩

theorem joinPieces_concat (separator : Char) (pieces : List (List Char)) (last : List Char) :
    joinPieces separator (pieces ++ [last]) = pieces.flatMap (· ++ [separator]) ++ last := by
  induction pieces with
  | nil => rfl
  | cons piece pieces ih =>
    rw [List.cons_append, joinPieces_cons_of_ne_nil _ _ (by simp), ih, List.flatMap_cons]
    simp

/-! ### Cut at the last separator -/

theorem exists_last_separator (h : c ∈ cs) : ∃ front behind, cs = front ++ c :: behind ∧ c ∉ behind := by
  obtain ⟨before, after, heq, hbefore⟩ := List.eq_append_cons_of_mem (List.mem_reverse.mpr h)
  refine ⟨after.reverse, before.reverse, ?_, fun hmem => hbefore (List.mem_reverse.mp hmem)⟩
  rw [← List.reverse_reverse cs, heq]
  simp

theorem ne_of_mem_reverse (h : c ∉ cs) : ∀ d ∈ cs.reverse, decide (d ≠ c) = true := by
  intro d hd
  refine decide_eq_true ?_
  rintro rfl
  exact h (List.mem_reverse.mp hd)

theorem reverse_last_separator : (front ++ c :: behind).reverse = behind.reverse ++ c :: front.reverse := by simp

theorem takeWhile_last_separator (h : c ∉ behind) :
    (front ++ c :: behind).reverse.takeWhile (· ≠ c) = behind.reverse := by
  rw [reverse_last_separator, List.takeWhile_append_of_pos (ne_of_mem_reverse h), List.takeWhile_cons_of_neg (by simp),
    List.append_nil]

theorem dropWhile_last_separator (h : c ∉ behind) :
    (front ++ c :: behind).reverse.dropWhile (· ≠ c) = c :: front.reverse := by
  rw [reverse_last_separator, List.dropWhile_append_of_pos (ne_of_mem_reverse h), List.dropWhile_cons_of_neg (by simp)]

theorem dropWhile_no_separator (h : c ∉ cs) : cs.reverse.dropWhile (· ≠ c) = [] := by
  rw [← List.append_nil cs.reverse, List.dropWhile_append_of_pos (ne_of_mem_reverse h)]
  rfl

/-! ### Searched -/

theorem occursIn_iff_infix {part : List Char} : occursIn part cs = true ↔ part <:+: cs := by
  induction cs with
  | nil => simp [occursIn]
  | cons c rest ih => rw [occursIn, Bool.or_eq_true, List.isPrefixOf_iff_prefix, ih, List.infix_cons_iff]

/-! ### Blanks at the ends -/

/-- A text that neither begins nor ends with a blank. -/
def IsTrimmed (s : String) : Prop :=
  (∀ c ∈ s.toList.head?, isBlank c = false) ∧ ∀ c ∈ s.toList.getLast?, isBlank c = false

theorem not_isBlank_of_head?_dropWhile (h : (cs.dropWhile isBlank).head? = some c) : isBlank c = false := by
  have hhead := List.head?_dropWhile_not isBlank cs
  rw [h] at hhead
  exact hhead

theorem isTrimmed_trim (s : String) : IsTrimmed (trim s) := by
  unfold IsTrimmed trim trimChars
  rw [String.toList_ofList]
  refine ⟨fun c hc => ?_, fun c hc => ?_⟩
  · -- The blanks at the end are dropped from a text that begins with none, and what is left of it begins as it does.
    obtain ⟨dropped, hdropped⟩ : ((s.toList.dropWhile isBlank).reverse.dropWhile isBlank).reverse <+:
        s.toList.dropWhile isBlank := List.reverse_suffix.mp (by simpa using List.dropWhile_suffix isBlank)
    have hsame := congrArg List.head? hdropped
    rw [List.head?_append, Option.mem_def.mp hc] at hsame
    exact not_isBlank_of_head?_dropWhile hsame.symm
  · rw [List.getLast?_reverse] at hc
    exact not_isBlank_of_head?_dropWhile hc

end AssetPlan.Text
