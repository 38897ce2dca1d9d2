import AssetPlan.Text.Decimal

/-! # Dates and times

A date, a time of day, or both with an optional offset. Days fit their month and year. A fraction of a
second keeps nine digits. Written out, date and time are joined by a `T` and the fraction has no zeros
at its end. -/

namespace AssetPlan.Toml

/-- A day of the calendar. -/
structure Date where
  year : Nat
  month : Nat
  day : Nat

/-- A time of day. -/
structure Time where
  hour : Nat
  minute : Nat
  second : Nat
  nanosecond : Nat

/-- The distance from universal time. -/
inductive Offset where
  | universal
  | minutes (behind : Bool) (count : Nat)

/-- A date, a time, or a date with a time and perhaps an offset. -/
inductive Datetime where
  | date (d : Date)
  | time (t : Time)
  | both (d : Date) (t : Time) (offset : Option Offset)

namespace Datetime
open Text

/-- Whether a year has a leap day. -/
def isLeapYear (year : Nat) : Bool := year % 4 == 0 && (year % 100 != 0 || year % 400 == 0)

/-- The number of days of a month. -/
def daysIn (year month : Nat) : Nat :=
  if month = 2 then (if isLeapYear year then 29 else 28)
  else if month = 4 ∨ month = 6 ∨ month = 9 ∨ month = 11 then 30
  else 31

/-- Drops one expected character. -/
def dropChar? (c : Char) : List Char → Option (List Char)
  | [] => none
  | d :: rest => if d = c then some rest else none

/-- A date at the start of a text. -/
def date? (cs : List Char) : Option (Date × List Char) := do
  let (year, cs) ← fixedDecimal? 4 cs
  let (month, cs) ← fixedDecimal? 2 (← dropChar? '-' cs)
  let (day, cs) ← fixedDecimal? 2 (← dropChar? '-' cs)
  if 1 ≤ month ∧ month ≤ 12 ∧ 1 ≤ day ∧ day ≤ daysIn year month then some (⟨year, month, day⟩, cs) else none

/-- Hour and minute at the start of a text. -/
def clock? (cs : List Char) : Option (Nat × Nat × List Char) := do
  let (hour, cs) ← fixedDecimal? 2 cs
  let (minute, cs) ← fixedDecimal? 2 (← dropChar? ':' cs)
  if hour ≤ 23 ∧ minute ≤ 59 then some (hour, minute, cs) else none

/-- The nanoseconds of a fraction: its first nine digits. -/
def nanoseconds (digits : List Char) : Nat :=
  let kept := digits.take 9
  decimalValue kept * Nat.pow 10 (9 - kept.length)

/-- A time at the start of a text. -/
def time? (cs : List Char) : Option (Time × List Char) := do
  let (hour, minute, cs) ← clock? cs
  let (second, cs) ← fixedDecimal? 2 (← dropChar? ':' cs)
  if 60 < second then none
  else
    match cs with
    | '.' :: rest =>
      let digits := rest.takeWhile Char.isDigit
      if digits = [] then some (⟨hour, minute, second, 0⟩, cs)
      else some (⟨hour, minute, second, nanoseconds digits⟩, rest.dropWhile Char.isDigit)
    | cs => some (⟨hour, minute, second, 0⟩, cs)

/-- An offset at the start of a text, if there is one. -/
def offset (cs : List Char) : Option Offset × List Char :=
  match cs with
  | [] => (none, [])
  | c :: rest =>
    if c = 'Z' ∨ c = 'z' then (some .universal, rest)
    else if c = '+' ∨ c = '-' then
      match clock? rest with
      | some (hour, minute, rest) => (some (.minutes (c = '-') (60 * hour + minute)), rest)
      | none => (none, c :: rest)
    else (none, c :: rest)

/-- A date, a time or both at the start of a text. -/
def read? (cs : List Char) : Option (Datetime × List Char) :=
  match date? cs with
  | some (d, rest) =>
    match rest with
    | c :: more =>
      if c = 'T' ∨ c = 't' ∨ c = ' ' then
        match time? more with
        | some (t, more) =>
          let (zone, more) := offset more
          some (.both d t zone, more)
        | none => some (.date d, rest)
      else some (.date d, rest)
    | [] => some (.date d, [])
  | none => (time? cs).map fun (t, rest) => (.time t, rest)

/-- The date, the time or both that a whole text writes. -/
def ofText? (text : String) : Option Datetime :=
  match read? text.toList with
  | some (d, []) => some d
  | _ => none

/-- The text of a date. -/
def dateText (d : Date) : List Char := padded 4 d.year ++ '-' :: padded 2 d.month ++ '-' :: padded 2 d.day

/-- The text of a time. -/
def timeText (t : Time) : List Char :=
  let clock := padded 2 t.hour ++ ':' :: padded 2 t.minute ++ ':' :: padded 2 t.second
  if t.nanosecond = 0 then clock
  else clock ++ '.' :: ((padded 9 t.nanosecond).reverse.dropWhile (· = '0')).reverse

/-- The text of an offset; no distance counts as ahead. -/
def offsetText : Offset → List Char
  | .universal => ['Z']
  | .minutes behind count =>
    (if behind && count != 0 then '-' else '+') :: (padded 2 (count / 60) ++ ':' :: padded 2 (count % 60))

/-- The text of a date, a time or both. -/
def text : Datetime → String
  | .date d => String.ofList (dateText d)
  | .time t => String.ofList (timeText t)
  | .both d t zone =>
    String.ofList (dateText d ++ 'T' :: timeText t ++ (match zone with | some z => offsetText z | none => []))

end Datetime
end AssetPlan.Toml
