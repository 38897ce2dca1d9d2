import AssetPlan.Regex.Program

/-! # Programs that take one text

A program that takes the symbols of one text, between the start and the end of what it is run on, has at every place
of the text at most one thread: the one that has taken everything before that place. So it matches its own text and no
other (`matchesIn_exactly`). -/

namespace AssetPlan.Regex.Program
variable {symbols rest : List Nat} {p : Program} {before after : Option Nat} {symbol pc start n fuel position : Nat}
  {threads next : Threads} {a : Assertion}

/-! ### The program -/

/-- The program that takes some symbols one after the other. -/
def takes (symbols : List Nat) : Program := (symbols.map fun symbol => Instruction.take (.single symbol)).toArray

theorem takes_append (symbols others : List Nat) : takes (symbols ++ others) = takes symbols ++ takes others := by
  simp [takes]

theorem ofAll_literals (symbols : List Nat) : ofAll (symbols.map .literal) = takes symbols := by
  induction symbols with
  | nil => rfl
  | cons symbol symbols ih =>
    rw [List.map_cons, ofAll, ih, ofExpr]
    exact (takes_append [symbol] symbols).symm

theorem ofExpr_sequence (es : List Expr) : ofExpr (.sequence es) = ofAll es := by
  match es with
  | [] => rfl
  | [e] => rw [Expr.sequence, ofAll, ofAll, Array.append_empty]
  | _ :: _ :: _ => rfl

/-- The program that takes some symbols from the start of a text to its end. -/
def exactly (symbols : List Nat) : Program := #[.assert .textStart] ++ takes symbols ++ #[.assert .textEnd]

theorem size_exactly (symbols : List Nat) : (exactly symbols).size = symbols.length + 2 := by
  simp [exactly, takes]

theorem exactly_start (symbols : List Nat) : (exactly symbols)[0]? = some (.assert .textStart) := by
  simp [exactly, takes]

theorem exactly_take (h : n < symbols.length) :
    (exactly symbols)[n + 1]? = some (.take (.single symbols[n])) := by
  simp [exactly, takes, List.getElem?_append_left, h]

theorem exactly_end (symbols : List Nat) : (exactly symbols)[symbols.length + 1]? = some (.assert .textEnd) := by
  simp [exactly, takes]

theorem exactly_behind (symbols : List Nat) : (exactly symbols)[symbols.length + 2]? = none :=
  Array.getElem?_eq_none (Nat.le_of_eq (size_exactly symbols))

theorem contains_single {other : Nat} : SymbolSet.contains (.single symbol) other = true ↔ symbol = other := by
  simp only [SymbolSet.contains, SymbolSet.single, List.any_cons, List.any_nil, Bool.or_false, Bool.and_eq_true,
    decide_eq_true_eq]
  omega

/-! ### Following one thread -/

theorem follow_nil : follow p before after start fuel [] threads = threads := by
  cases fuel <;> rfl

/-- A place at which a thread stays until it takes a symbol, or for good. -/
def Rests (p : Program) (pc : Nat) : Prop := p[pc]? = none ∨ ∃ set, p[pc]? = some (.take set)

theorem follow_rests (hfree : threads.taken.getD pc true = false) (hp : Rests p pc) :
    (follow p before after start (fuel + 1) [pc] threads).list = ⟨pc, start⟩ :: threads.list := by
  rw [follow, if_neg (by rw [hfree]; exact Bool.false_ne_true)]
  rcases hp with hp | ⟨set, hp⟩ <;> rw [hp] <;> exact congrArg Threads.list follow_nil

theorem follow_holds (hfree : threads.taken.getD pc true = false) (hp : p[pc]? = some (.assert a))
    (ha : a.holds before after = true) : follow p before after start (fuel + 1) [pc] threads =
      follow p before after start fuel [pc + 1] ⟨threads.list, threads.taken.setIfInBounds pc true⟩ := by
  rw [follow, if_neg (by rw [hfree]; exact Bool.false_ne_true), hp]
  exact if_pos ha

/-- A thread that comes to an assertion that does not hold is dropped. -/
theorem follow_fails (hp : p[pc]? = some (.assert a)) (ha : a.holds before after = false) :
    (follow p before after start fuel [pc] threads).list = threads.list := by
  cases fuel with
  | zero => rfl
  | succ fuel =>
    rw [follow]
    split
    · rw [follow_nil]
    · rw [hp]
      dsimp only
      rw [if_neg (by rw [ha]; exact Bool.false_ne_true), follow_nil]

theorem taken_none (h : pc ≤ p.size) : (Threads.none p.size).taken.getD pc true = false := by
  simp [Threads.none, Nat.lt_succ_of_le h]

/-! ### The only thread -/

/-- The threads, if any, that have taken the first `n` symbols of a program that takes some symbols. -/
def settled (symbols : List Nat) (n : Nat) (after : Option Nat) : List Thread :=
  if n < symbols.length then [⟨n + 1, 0⟩] else if after.isNone then [⟨n + 2, 0⟩] else []

theorem follow_settled (hn : n ≤ symbols.length) (hfuel : 2 ≤ fuel) (hfree : threads.taken.getD (n + 1) true = false)
    (hlast : threads.taken.getD (n + 2) true = false) (hlist : threads.list = []) :
    (follow (exactly symbols) before after 0 fuel [n + 1] threads).list = settled symbols n after := by
  obtain ⟨fuel, rfl⟩ := Nat.exists_eq_add_of_le' hfuel
  unfold settled
  split
  · rename_i hlt
    rw [follow_rests hfree (.inr ⟨_, exactly_take hlt⟩), hlist]
  · rename_i hge
    obtain rfl : n = symbols.length := by omega
    cases after with
    | none =>
      have hfree' : (threads.taken.setIfInBounds (symbols.length + 1) true).getD (symbols.length + 2) true = false := by
        simpa [Array.getElem?_setIfInBounds_ne] using hlast
      rw [follow_holds hfree (exactly_end symbols) rfl, follow_rests hfree' (.inl (exactly_behind symbols)), hlist]
      rfl
    | some symbol => rw [follow_fails (exactly_end symbols) rfl, hlist]; rfl

/-- No thread begins behind the start of the text. -/
theorem add_late : (threads.add (exactly symbols) (some symbol) after ⟨0, position⟩).list = threads.list :=
  follow_fails (exactly_start symbols) rfl

theorem add_start : ((Threads.none (exactly symbols).size).add (exactly symbols) none after ⟨0, 0⟩).list =
    settled symbols 0 after := by
  have hsize := size_exactly symbols
  unfold Threads.add
  rw [follow_holds (taken_none (Nat.zero_le _)) (exactly_start symbols) rfl]
  have hfree : ∀ n, n + 1 ≤ (exactly symbols).size →
      ((Threads.none (exactly symbols).size).taken.setIfInBounds 0 true).getD (n + 1) true = false := by
    intro n hn
    simpa [Array.getElem?_setIfInBounds_ne] using taken_none hn
  exact follow_settled (Nat.zero_le _) (by omega) (hfree 0 (by omega)) (hfree 1 (by omega)) rfl

theorem add_next (hn : n ≤ symbols.length) :
    ((Threads.none (exactly symbols).size).add (exactly symbols) before after ⟨n + 1, 0⟩).list = settled symbols n after := by
  have hsize := size_exactly symbols
  exact follow_settled hn (by omega) (taken_none (by omega)) (taken_none (by omega)) rfl

/-! ### The run -/

theorem run_nil : run p position before threads none [] =
    (advance p position none none (threads.add p before none ⟨0, position⟩).list.reverse (.none p.size)).2 := by
  rw [run, Option.or_none]
  rfl

theorem run_cons (h : advance p position (some symbol) rest.head?
      (threads.add p before (some symbol) ⟨0, position⟩).list.reverse (.none p.size) = (next, none)) :
    run p position before threads none (symbol :: rest) = run p (position + 1) (some symbol) next none rest := by
  rw [run]
  simp only [Option.isNone_none, if_true, Option.isSome_none, Bool.and_false, Bool.false_eq_true, if_false, h,
    Option.or_none]

/-- What one symbol makes of the only thread. -/
theorem advance_settled (hlt : n < symbols.length) (next : Threads) :
    advance (exactly symbols) position (some symbol) after [⟨n + 1, 0⟩] next =
      (if symbols[n] = symbol then next.add (exactly symbols) (some symbol) after ⟨n + 2, 0⟩ else next, none) := by
  rw [advance, exactly_take hlt]
  dsimp only
  rw [Option.any_some]
  by_cases htakes : symbols[n] = symbol
  · rw [if_pos (contains_single.mpr htakes), if_pos htakes, advance]
  · rw [if_neg (mt contains_single.mp htakes), if_neg htakes, advance]

/-- A run whose threads have died finds nothing behind the start of the text. -/
theorem run_dead (hlist : threads.list = []) : run (exactly symbols) position (some symbol) threads none rest = none := by
  induction rest generalizing position symbol threads with
  | nil =>
    rw [run_nil, add_late, hlist]
    rfl
  | cons other rest ih =>
    rw [run_cons (by rw [add_late, hlist]; rfl)]
    exact ih rfl

/-- A run that has taken the first symbols finds a match just if the others follow. -/
theorem run_settled (hn : n ≤ symbols.length)
    (hlist : (threads.add (exactly symbols) before rest.head? ⟨0, position⟩).list = settled symbols n rest.head?) :
    (run (exactly symbols) position before threads none rest).isSome = true ↔ rest = symbols.drop n := by
  induction rest generalizing n position before threads with
  | nil =>
    rw [List.head?_nil] at hlist
    rw [run_nil, hlist]
    unfold settled
    split
    · rename_i hlt
      have hmore : symbols.drop n ≠ [] := fun hnil => absurd (List.drop_eq_nil_iff.mp hnil) (by omega)
      simp [advance, exactly_take hlt, hmore.symm]
    · obtain rfl : n = symbols.length := by omega
      simp [advance, exactly_behind]
  | cons other rest ih =>
    rw [List.head?_cons] at hlist
    by_cases hlt : n < symbols.length
    · rw [settled, if_pos hlt] at hlist
      rw [run_cons (by rw [hlist]; exact advance_settled hlt _), List.drop_eq_getElem_cons hlt, List.cons_eq_cons]
      by_cases htakes : symbols[n] = other
      · -- The thread takes the symbol and is settled before the next one.
        rw [if_pos htakes, ih hlt (by rw [add_late, add_next hlt])]
        exact (and_iff_right htakes.symm).symm
      · rw [if_neg htakes, run_dead rfl]
        exact iff_of_false Bool.false_ne_true fun h => htakes h.1.symm
    · obtain rfl : n = symbols.length := by omega
      rw [settled, if_neg hlt] at hlist
      rw [run_cons (by rw [hlist]; rfl), run_dead rfl, List.drop_length]
      exact iff_of_false Bool.false_ne_true (List.cons_ne_nil other rest)

/-- A program that takes the symbols of one text matches no other. -/
theorem matchesIn_exactly {text : List Nat} : matchesIn (exactly symbols) text = true ↔ text = symbols :=
  run_settled (Nat.zero_le _) add_start

end AssetPlan.Regex.Program
