/-! # Splitting and searching texts

A text cut at every character of a kind, and the question whether a text occurs in another. Cutting
loses the separators only: the pieces joined by one separator are the text again (`joinPieces_splitBy`). -/

namespace AssetPlan.Text

/-- The pieces between the characters for which `isSeparator` holds; one more than there are of them. -/
def splitBy (isSeparator : Char → Bool) : List Char → List (List Char)
  | [] => [[]]
  | c :: rest =>
    if isSeparator c then [] :: splitBy isSeparator rest
    else
      match splitBy isSeparator rest with
      | [] => [[c]]
      | piece :: pieces => (c :: piece) :: pieces

/-- The pieces of a text between the characters for which `isSeparator` holds. -/
def split (isSeparator : Char → Bool) (s : String) : List String := (splitBy isSeparator s.toList).map String.ofList

/-- Pieces with one separator between each two. -/
def joinPieces (separator : Char) : List (List Char) → List Char
  | [] => []
  | [piece] => piece
  | piece :: pieces => piece ++ separator :: joinPieces separator pieces

theorem splitBy_ne_nil (isSeparator : Char → Bool) (cs : List Char) : splitBy isSeparator cs ≠ [] := by
  cases cs with
  | nil => simp [splitBy]
  | cons c rest =>
    unfold splitBy
    split
    · simp
    · split <;> simp

theorem joinPieces_cons_of_ne_nil (separator : Char) (piece : List Char) {pieces : List (List Char)}
    (h : pieces ≠ []) : joinPieces separator (piece :: pieces) = piece ++ separator :: joinPieces separator pieces := by
  cases pieces with
  | nil => exact absurd rfl h
  | cons p ps => rfl

theorem joinPieces_splitBy (separator : Char) (cs : List Char) :
    joinPieces separator (splitBy (· == separator) cs) = cs := by
  induction cs with
  | nil => rfl
  | cons c rest ih =>
    unfold splitBy
    split
    · next h =>
      rw [joinPieces_cons_of_ne_nil _ _ (splitBy_ne_nil _ _), ih, eq_of_beq h]
      rfl
    · split
      · next h => exact absurd h (splitBy_ne_nil _ _)
      · next piece pieces h =>
        rw [h] at ih
        cases pieces with
        | nil => simpa [joinPieces] using ih
        | cons p ps =>
          rw [joinPieces_cons_of_ne_nil _ _ (by simp)] at ih ⊢
          simp [ih]

/-- Whether a text occurs in another. -/
def occursIn (part : List Char) : List Char → Bool
  | [] => part.isEmpty
  | c :: rest => part.isPrefixOf (c :: rest) || occursIn part rest

/-- The text without the characters of one kind at its end. -/
def dropEndWhile (p : Char → Bool) (cs : List Char) : List Char := (cs.reverse.dropWhile p).reverse

end AssetPlan.Text
