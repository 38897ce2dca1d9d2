import AssetPlan.Regex.Expr

/-! # The room of a regular expression

How many bytes the automaton of an expression and the table of its groups take. A repetition has the
states of its body once for every time, so this grows with the numbers in a repetition; it is computed
from the expression alone, before any automaton is made. -/

namespace AssetPlan.Regex.Expr

/-- The room of one state. -/
def stateRoom : Nat := 32

/-- The room of one target of a choice. -/
def targetRoom : Nat := 4

/-- The room of a choice between two targets. -/
def choiceRoom : Nat := stateRoom + 2 * targetRoom

/-- The room of one range of a set. -/
def rangeRoom : Nat := 8

/-- The room of a repetition whose body takes `size`: every time has states of its own and, if it may be
    left out, a choice. A state joins the ways behind optional times. -/
def repetitionFootprint (size : Nat) (bodyNullable : Bool) : Nat → Option Nat → Nat
  | 0, some 1 => size + choiceRoom + stateRoom
  | 0, none => if bodyNullable then size + 2 * choiceRoom + stateRoom else size + choiceRoom
  | min, none => min * size + choiceRoom
  | min, some max =>
    (if min = 0 then stateRoom else min * size) +
      if max = min then 0 else stateRoom + (max - min) * (choiceRoom + size)

mutual

/-- The room that the states of the expression take, in bytes. -/
def footprint : Expr → Nat
  | .empty | .assertion _ | .literal _ => stateRoom
  | .oneOf set => stateRoom + rangeRoom * set.length
  | .repetition body min max _ => repetitionFootprint (footprint body) (nullable body) min max
  | .group _ _ body => footprint body + 2 * stateRoom
  | .concat parts => footprintSum parts
  | .alternation branches => 2 * stateRoom + targetRoom * branches.length + footprintSum branches
termination_by structural e => e

/-- The room of all expressions. -/
def footprintSum : List Expr → Nat
  | [] => 0
  | e :: rest => footprint e + footprintSum rest
termination_by structural es => es

end

mutual

/-- The groups of the expression with their numbers and names. -/
def groups : Expr → List (Nat × Option String)
  | .empty | .assertion _ | .literal _ | .oneOf _ => []
  | .repetition body _ _ _ => groups body
  | .group number name body => (number, name) :: groups body
  | .concat parts => groupsOfAll parts
  | .alternation branches => groupsOfAll branches
termination_by structural e => e

/-- The groups of all expressions. -/
def groupsOfAll : List Expr → List (Nat × Option String)
  | [] => []
  | e :: rest => groups e ++ groupsOfAll rest
termination_by structural es => es

end

/-- The room of one group in the table of groups. -/
def groupRoom : Nat := 16

/-- The room of a group's name. -/
def nameRoom : Option String → Nat
  | some name => name.utf8ByteSize + 4
  | none => 0

/-- The room of the table of groups, in bytes. It has a place for every number up to the largest, with
    zero for the whole match. -/
def tableRoom (e : Expr) : Nat :=
  groupRoom * ((e.groups.map Prod.fst).foldl max 0 + 1) + (e.groups.map fun g => nameRoom g.2).foldl (· + ·) 0

/-- The room that the expression takes, in bytes: its states, those around the whole match, and the table
    of groups. -/
def room (e : Expr) : Nat := e.footprint + 3 * stateRoom + e.tableRoom

end AssetPlan.Regex.Expr
