import AssetPlan.Regex.Expr

/-! # Running a regular expression

An expression is laid out as a program of instructions with relative jumps, and run on all its threads
at once: a thread is a place in the program and the place in the text where its match began. The
threads are kept in order of preference, no two at the same place of the program, so the run takes time
proportional to program and text. Among the matches that begin first it finds the preferred one. -/

namespace AssetPlan.Regex

/-- An instruction. Jumps count from the instruction itself. -/
inductive Instruction where
  /-- Takes one symbol of the set. -/
  | take (set : SymbolSet)
  /-- Goes on if the assertion holds. -/
  | assert (a : Assertion)
  /-- Goes on at both places, preferring the first. -/
  | fork (preferred other : Int)
  | jump (offset : Int)
  deriving Repr

/-- Instructions in order; behind the last one the program has matched. -/
abbrev Program := Array Instruction

namespace Program

/-- A fork that enters what follows first if `greedy`, and skips it first otherwise. -/
def forkInto (greedy : Bool) (enter skip : Int) : Instruction :=
  if greedy then .fork enter skip else .fork skip enter

/-- The program or nothing. -/
def optional (greedy : Bool) (body : Program) : Program :=
  #[forkInto greedy 1 (body.size + 1)] ++ body

/-- The program once or more often. -/
def oneOrMore (greedy : Bool) (body : Program) : Program :=
  body.push (forkInto greedy (-(body.size : Int)) 1)

/-- The program any number of times. A body that can match nothing would come back to its start without
    having taken a symbol, so there the loop is an optional `oneOrMore`. -/
def zeroOrMore (greedy bodyNullable : Bool) (body : Program) : Program :=
  if bodyNullable then optional greedy (oneOrMore greedy body)
  else #[forkInto greedy 1 (body.size + 2)] ++ body ++ #[.jump (-(body.size + 1 : Int))]

/-- The program a number of times. -/
def times (body : Program) : Nat → Program
  | 0 => #[]
  | n + 1 => times body n ++ body

/-- The first few of `total` optional times of a program. Each time is tried only after the one before,
    and skipping it skips all that follow. -/
def upTo (greedy : Bool) (body : Program) (total : Nat) : Nat → Program
  | 0 => #[]
  | n + 1 => upTo greedy body total n ++ #[forkInto greedy 1 ((total - n) * (body.size + 1))] ++ body

mutual

/-- The program of an expression. -/
def ofExpr : Expr → Program
  | .empty => #[]
  | .literal symbol => #[.take (.single symbol)]
  | .oneOf set => #[.take set]
  | .assertion a => #[.assert a]
  | .repetition body min max greedy =>
    let code := ofExpr body
    match max, min with
    | none, 0 => zeroOrMore greedy body.nullable code
    | none, n + 1 => times code n ++ oneOrMore greedy code
    | some max, min => times code min ++ upTo greedy code (max - min) (max - min)
  | .group _ _ body => ofExpr body
  | .concat parts => ofAll parts
  | .alternation branches => ofAny branches
termination_by structural e => e

/-- The programs of expressions one after the other. -/
def ofAll : List Expr → Program
  | [] => #[]
  | e :: rest => ofExpr e ++ ofAll rest
termination_by structural es => es

/-- The first of the expressions that matches. -/
def ofAny : List Expr → Program
  | [] => #[.take []]
  | [e] => ofExpr e
  | e :: rest =>
    let first := ofExpr e
    let others := ofAny rest
    #[.fork 1 (first.size + 2)] ++ first ++ #[.jump (others.size + 1)] ++ others
termination_by structural es => es

end

/-- A thread: where it is in the program, and where in the text its match began. -/
structure Thread where
  pc : Nat
  start : Nat
  deriving Repr

/-- The threads of one place of the text, latest first, and the places of the program already taken. -/
structure Threads where
  list : List Thread
  taken : Array Bool

/-- No threads of a program of `size` instructions. -/
def Threads.none (size : Nat) : Threads := ⟨[], Array.replicate (size + 1) false⟩

/-- The place to which a relative jump leads. -/
def target (pc : Nat) (offset : Int) : Nat := (pc + offset).toNat

/-- Follows jumps, forks and assertions from the places on the stack until each thread takes a symbol or
    has matched. A place is left after at most two more were put on the stack, so the fuel is twice the
    program's size and what the stack holds. -/
def follow (p : Program) (before after : Option Nat) (start : Nat) : Nat → List Nat → Threads → Threads
  | _, [], threads => threads
  | 0, _ :: _, threads => threads
  | fuel + 1, pc :: stack, threads =>
    if threads.taken.getD pc true then follow p before after start fuel stack threads
    else
      let taken := threads.taken.setIfInBounds pc true
      match p[pc]? with
      | some (.jump offset) => follow p before after start fuel (target pc offset :: stack) ⟨threads.list, taken⟩
      | some (.fork preferred other) =>
        follow p before after start fuel (target pc preferred :: target pc other :: stack) ⟨threads.list, taken⟩
      | some (.assert a) =>
        if a.holds before after then follow p before after start fuel ((pc + 1) :: stack) ⟨threads.list, taken⟩
        else follow p before after start fuel stack ⟨threads.list, taken⟩
      | some (.take _) | Option.none => follow p before after start fuel stack ⟨⟨pc, start⟩ :: threads.list, taken⟩

/-- Adds a thread at a place of the program, with the least preference. -/
def Threads.add (p : Program) (before after : Option Nat) (thread : Thread) (threads : Threads) : Threads :=
  follow p before after thread.start (2 * p.size + 3) [thread.pc] threads

/-- A match: where it begins and where it ends, counted in symbols. -/
structure Span where
  start : Nat
  stop : Nat
  deriving DecidableEq, Repr

/-- Takes one symbol with all threads, in order of preference: the threads behind it, and the match of
    the first thread that has matched already, which ends those after it. -/
def advance (p : Program) (position : Nat) (symbol : Option Nat) (after : Option Nat) :
    List Thread → Threads → Threads × Option Span
  | [], next => (next, none)
  | t :: rest, next =>
    match p[t.pc]? with
    | some (.take set) =>
      if symbol.any set.contains then
        advance p position symbol after rest (next.add p symbol after ⟨t.pc + 1, t.start⟩)
      else advance p position symbol after rest next
    | some _ => advance p position symbol after rest next
    | Option.none => (next, some ⟨t.start, position⟩)

/-- Runs from a place of the text on. `best` is the match found so far, which ends the search for later
    beginnings. -/
def run (p : Program) (position : Nat) (before : Option Nat) (threads : Threads) (best : Option Span) :
    List Nat → Option Span
  | [] =>
    let threads := if best.isNone then threads.add p before none ⟨0, position⟩ else threads
    (advance p position none none threads.list.reverse (.none p.size)).2.or best
  | symbol :: rest =>
    let threads := if best.isNone then threads.add p before (some symbol) ⟨0, position⟩ else threads
    if threads.list.isEmpty && best.isSome then best
    else
      let (next, found) := advance p position (some symbol) rest.head? threads.list.reverse (.none p.size)
      run p (position + 1) (some symbol) next (found.or best) rest

/-- The first match in a text. -/
def find? (p : Program) (text : List Nat) : Option Span := run p 0 none (.none p.size) none text

/-- Whether some part of a text matches. -/
def matchesIn (p : Program) (text : List Nat) : Bool := (find? p text).isSome

end Program
end AssetPlan.Regex
