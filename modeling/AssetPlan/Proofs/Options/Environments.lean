import AssetPlan.Options
import AssetPlan.Proofs.Text
import Mathlib.Data.List.Basic

/-! # The order of environments

An environment may be forced, named on the command line and named by the process, and still stands once among the
environments of an invocation. The one of the process comes last, a forced `production` first, and the others keep the
order in which the command line first names them. `Ordered` says all of this of a list, and the environments of every
invocation are in order (`environments_ordered`). -/

namespace AssetPlan.Options
variable {o : Options} {name : String}

/-- The environment that the process names, without the blanks around it. -/
def processName? (o : Options) : Option String := o.processEnv.map Text.trim

/-- The environments of an invocation in the order in which they are applied. -/
structure Ordered (o : Options) (names : List String) : Prop where
  nodup : names.Nodup
  mem_iff : ∀ name, name ∈ names ↔
    name ∈ o.named ∨ (o.production = true ∧ name = productionName) ∨ o.processName? = some name
  /-- The environment of the process wins over all others. -/
  last : ∀ name, o.processName? = some name → names.getLast? = some name
  /-- A forced `production` gives way to all others, unless the process names it too. -/
  first : o.production = true → o.processName? ≠ some productionName → names.head? = some productionName
  others : (names.filter fun name =>
    ¬ (o.production = true ∧ name = productionName) ∧ o.processName? ≠ some name).Pairwise
      fun a b => o.named.idxOf a < o.named.idxOf b

/-- A name of an environment: not empty, and without blanks around it. -/
def IsName (name : String) : Prop := name ≠ "" ∧ Text.IsTrimmed name

/-! ### The names of the command line -/

/-- What stands before something else among the names without repetitions was named before it for the first time. -/
theorem pairwise_distinct (names : List String) :
    (distinct names).Pairwise fun a b => names.idxOf a < names.idxOf b := by
  induction names with
  | nil => exact .nil
  | cons first rest ih =>
    have hne : ∀ {name}, name ∈ (distinct rest).filter (· ≠ first) → first ≠ name := fun h =>
      Ne.symm (of_decide_eq_true (List.mem_filter.mp h).2)
    rw [distinct, List.pairwise_cons]
    refine ⟨fun name hname => ?_, (ih.filter _).imp_of_mem fun ha hb hlt => ?_⟩
    · rw [List.idxOf_cons_self, List.idxOf_cons_ne _ (hne hname)]
      exact Nat.succ_pos _
    · rw [List.idxOf_cons_ne _ (hne ha), List.idxOf_cons_ne _ (hne hb)]
      exact Nat.succ_lt_succ hlt

theorem mem_commandEnvironments : name ∈ o.commandEnvironments ↔
    name ∈ o.named ∨ (o.production = true ∧ name = productionName) := by
  unfold commandEnvironments
  rw [mem_distinct]
  cases o.production <;> simp [or_comm]

/-- Apart from a forced `production`, the names stand as they were first named. -/
theorem pairwise_commandEnvironments (o : Options) :
    (o.commandEnvironments.filter fun name => ¬ (o.production = true ∧ name = productionName)).Pairwise
      fun a b => o.named.idxOf a < o.named.idxOf b := by
  unfold commandEnvironments
  cases o.production with
  | false => exact (pairwise_distinct o.named).filter _
  | true =>
    refine ((pairwise_distinct (productionName :: o.named)).filter _).imp_of_mem fun {a b} ha hb hlt => ?_
    have hne : ∀ {name}, name ∈ (distinct (productionName :: o.named)).filter
        (fun name => ¬ (true = true ∧ name = productionName)) → productionName ≠ name := fun h heq =>
      of_decide_eq_true (List.mem_filter.mp h).2 ⟨rfl, heq.symm⟩
    rw [List.idxOf_cons_ne _ (hne ha), List.idxOf_cons_ne _ (hne hb)] at hlt
    exact Nat.lt_of_succ_lt_succ hlt

theorem isName_of_mem_namesOfText {text : String} (h : name ∈ namesOfText text) : IsName name := by
  obtain ⟨hmem, hne⟩ := List.mem_filter.mp h
  obtain ⟨piece, -, rfl⟩ := List.mem_map.mp hmem
  exact ⟨of_decide_eq_true hne, Text.isTrimmed_trim piece⟩

/-! ### With the name of the process -/

theorem environments_eq (o : Options) :
    o.environments = o.commandEnvironments.filter (o.processName? ≠ some ·) ++ o.processName?.toList := by
  unfold environments processName?
  cases o.processEnv with
  | none => simp [List.filter_true]
  | some v => simp [eq_comm]

theorem mem_environments : name ∈ o.environments ↔
    name ∈ o.named ∨ (o.production = true ∧ name = productionName) ∨ o.processName? = some name := by
  rw [environments_eq, List.mem_append, List.mem_filter, mem_commandEnvironments, Option.mem_toList, decide_eq_true_eq]
  by_cases h : o.processName? = some name <;> simp [h]

theorem nodup_environments (o : Options) : o.environments.Nodup := by
  rw [environments_eq]
  refine List.nodup_append.mpr ⟨(nodup_distinct _).filter _, ?_, fun name hname other hother hsame => ?_⟩
  · cases o.processName? <;> simp
  · obtain rfl := hsame
    exact of_decide_eq_true (List.mem_filter.mp hname).2 (Option.mem_toList.mp hother)

/-- The environment of the process is none of the others, so these are the names of the command line. -/
theorem filter_environments (o : Options) :
    (o.environments.filter fun name => ¬ (o.production = true ∧ name = productionName) ∧ o.processName? ≠ some name) =
      (o.commandEnvironments.filter fun name => ¬ (o.production = true ∧ name = productionName)).filter
        (o.processName? ≠ some ·) := by
  have hprocess : (o.processName?.toList.filter fun name =>
      ¬ (o.production = true ∧ name = productionName) ∧ o.processName? ≠ some name) = [] :=
    List.filter_eq_nil_iff.mpr fun name hname hother => (of_decide_eq_true hother).2 (Option.mem_toList.mp hname)
  rw [environments_eq, List.filter_append, hprocess, List.append_nil, List.filter_filter, List.filter_filter]
  refine List.filter_congr fun name _ => ?_
  by_cases h : o.processName? = some name <;> simp [h]

theorem ordered_environments (o : Options) : o.Ordered o.environments where
  nodup := nodup_environments o
  mem_iff _ := mem_environments
  last name hname := by
    rw [environments_eq, hname]
    simp
  first hforced hprocess := by
    rw [environments_eq, commandEnvironments, if_pos hforced, distinct, List.filter_cons_of_pos (by simpa using hprocess)]
    rfl
  others := by
    rw [filter_environments]
    exact (pairwise_commandEnvironments o).filter _

theorem isName_of_processName? {variableValue : Option String}
    (h : (o.withProcessEnv variableValue).processName? = some name) : IsName name := by
  obtain ⟨value, hvalue, rfl⟩ := Option.map_eq_some_iff.mp h
  obtain ⟨-, hne⟩ := Option.filter_eq_some_iff.mp hvalue
  exact ⟨of_decide_eq_true hne, Text.isTrimmed_trim value⟩

theorem isName_productionName : IsName productionName := by
  refine ⟨by decide, fun c hc => ?_, fun c hc => ?_⟩
  · cases hc
    decide
  · cases hc
    decide

/-- The environments of every invocation are in order, and the build is one for production exactly if `production` is
    among them. Names that were read from a text and from a variable of the process are neither empty nor have blanks
    around them. -/
theorem environments_ordered (o : Options) :
    o.Ordered o.environments ∧ (o.isProduction = true ↔ productionName ∈ o.environments) ∧
      ∀ text variableValue, o.named = namesOfText text →
        ∀ name ∈ (o.withProcessEnv variableValue).environments, IsName name := by
  refine ⟨ordered_environments o, ?production, fun text variableValue hnamed name hname => ?names⟩
  case production =>
    unfold isProduction
    rw [Bool.or_eq_true, List.contains_iff_mem]
    exact ⟨fun h => h.elim (fun hforced => mem_environments.mpr (.inr (.inl ⟨hforced, rfl⟩))) id, .inr⟩
  case names =>
    rcases mem_environments.mp hname with hmem | ⟨-, rfl⟩ | hprocess
    · exact isName_of_mem_namesOfText (hnamed ▸ hmem)
    · exact isName_productionName
    · exact isName_of_processName? hprocess

/-- A forced build of environments that the command line repeats, one of them named by the process too. -/
def repeatedNames : Options :=
  { named := namesOfText "ci, staging,,production,ci ,debug", production := true, processEnv := some " staging\n" }

theorem environments_ordered_repeatedNames :
    repeatedNames.environments = ["production", "ci", "debug", "staging"] ∧
      repeatedNames.Ordered repeatedNames.environments ∧ repeatedNames.isProduction = true ∧
      "staging" ∈ (repeatedNames.withProcessEnv (some " staging\n")).environments ∧ IsName "staging" := by
  have hnames : repeatedNames.environments = ["production", "ci", "debug", "staging"] := by decide +kernel
  have hprocess : "staging" ∈ (repeatedNames.withProcessEnv (some " staging\n")).environments := by decide +kernel
  obtain ⟨hordered, hproduction, hproper⟩ := environments_ordered repeatedNames
  exact ⟨hnames, hordered, hproduction.mpr (by rw [hnames]; decide), hprocess, hproper _ _ rfl _ hprocess⟩

end AssetPlan.Options
