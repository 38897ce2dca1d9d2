import AssetPlan.Regex.Program
import AssetPlan.Regex.Room
import AssetPlan.Regex.Syntax

/-! # Compiled regular expressions

A `Regex` is a source text together with the program that it compiles to, so that two of one source and
one case rule are the same and accept the same texts. A source that would take more than ten mebibytes
does not compile. -/

namespace AssetPlan

namespace Regex

/-- The room that an expression may take, in bytes. -/
def roomLimit : Nat := 10 * Nat.pow 2 20

/-- The program of a source. -/
def compile? (source : String) (ignoreCase : Bool) : Option Program := do
  let e ← Syntax.read? ignoreCase source.toList
  if e.room ≤ roomLimit then some (Program.ofExpr e) else none

end Regex

/-- A regular expression that compiles. -/
structure Regex where
  source : String
  ignoreCase : Bool
  program : Regex.Program
  compiled : Regex.compile? source ignoreCase = some program

namespace Regex

/-- The regular expression with a source. -/
def ofSource? (source : String) (ignoreCase : Bool) : Option Regex :=
  match h : compile? source ignoreCase with
  | some program => some ⟨source, ignoreCase, program, h⟩
  | none => none

/-- Whether some part of the text matches. -/
def accepts (r : Regex) (text : String) : Bool := r.program.matchesIn (text.toList.map Char.toNat)

/-- The text without its first match. -/
def removeFirst (r : Regex) (text : String) : String :=
  match r.program.find? (text.toList.map Char.toNat) with
  | some span => String.ofList (text.toList.take span.start ++ text.toList.drop span.stop)
  | none => text

/-- Source and case rule determine the regular expression. -/
theorem eq_of_source {a b : Regex} (hs : a.source = b.source) (hc : a.ignoreCase = b.ignoreCase) : a = b := by
  obtain ⟨sa, ca, pa, ha⟩ := a
  obtain ⟨sb, cb, pb, hb⟩ := b
  subst hs hc
  obtain rfl : pa = pb := Option.some.inj (ha.symm.trans hb)
  rfl

/-- A source gives a regular expression exactly when it compiles. -/
theorem ofSource?_eq_some_iff {source : String} {ignoreCase : Bool} {r : Regex} :
    ofSource? source ignoreCase = some r ↔ r.source = source ∧ r.ignoreCase = ignoreCase := by
  unfold ofSource?
  constructor
  · intro h
    split at h
    · cases h; exact ⟨rfl, rfl⟩
    · cases h
  · rintro ⟨rfl, rfl⟩
    have hr := r.compiled
    split
    · next program h => exact congrArg some (eq_of_source rfl rfl)
    · next h => rw [hr] at h; cases h

theorem ofSource?_eq_none_iff {source : String} {ignoreCase : Bool} :
    ofSource? source ignoreCase = none ↔ compile? source ignoreCase = none := by
  unfold ofSource?
  split
  · next program h => simp [h]
  · next h => simp [h]

end Regex
end AssetPlan
