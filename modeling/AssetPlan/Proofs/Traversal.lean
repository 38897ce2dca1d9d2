import AssetPlan.Diagnostic

/-! # Computations that may fail

How a run that gave a result is taken apart: a sequence of two parts, a list whose items are read one by
one, and a fold over a list. A fold of reported computations gives what the fold of their results gives. -/

namespace AssetPlan
variable {α β γ ε : Type}

theorem bind_eq_ok {x : Except ε α} {f : α → Except ε β} {b : β} :
    x >>= f = .ok b ↔ ∃ a, x = .ok a ∧ f a = .ok b := by
  cases x with
  | error e =>
    constructor
    · intro h
      cases h
    · rintro ⟨a, h, -⟩
      cases h
  | ok a =>
    constructor
    · intro h
      exact ⟨a, rfl, h⟩
    · rintro ⟨a', h, h'⟩
      cases h
      exact h'

theorem bind_eq_error {x : Except ε α} {f : α → Except ε β} {e : ε} :
    x >>= f = .error e ↔ x = .error e ∨ ∃ a, x = .ok a ∧ f a = .error e := by
  cases x with
  | error e' =>
    constructor
    · intro h
      cases h
      exact .inl rfl
    · rintro (h | ⟨a, h, -⟩)
      · cases h
        rfl
      · cases h
  | ok a =>
    constructor
    · intro h
      exact .inr ⟨a, rfl, h⟩
    · rintro (h | ⟨a', h, h'⟩)
      · cases h
      · cases h
        exact h'

theorem map_eq_ok {x : Except ε α} {f : α → β} {b : β} : x.map f = .ok b ↔ ∃ a, x = .ok a ∧ f a = b := by
  cases x <;> simp [Except.map]

theorem map_eq_error {x : Except ε α} {f : α → β} {e : ε} : x.map f = .error e ↔ x = .error e := by
  cases x <;> simp [Except.map]

theorem exists_ok_of_isOk {x : Except ε α} (h : x.isOk = true) : ∃ a, x = .ok a := by
  cases x with
  | error e => cases h
  | ok a => exact ⟨a, rfl⟩

/-- The error of a computation that fails. -/
def errorOf? : Except ε α → Option ε
  | .ok _ => none
  | .error e => some e

theorem errorOf?_eq_some {x : Except ε α} {e : ε} : errorOf? x = some e ↔ x = .error e := by
  cases x <;> simp [errorOf?]

/-- Two computations fail with the same error, or they succeed with related results. -/
inductive SameOutcome (rel : α → β → Prop) : Except ε α → Except ε β → Prop where
  | ok {a : α} {b : β} (h : rel a b) : SameOutcome rel (.ok a) (.ok b)
  | error (e : ε) : SameOutcome rel (.error e) (.error e)

namespace SameOutcome
variable {α' β' : Type} {rel : α → β → Prop} {rel' : α' → β' → Prop} {x : Except ε α} {y : Except ε β}

theorem bind {f : α → Except ε α'} {g : β → Except ε β'} (h : SameOutcome rel x y)
    (hfg : ∀ a b, rel a b → SameOutcome rel' (f a) (g b)) : SameOutcome rel' (x >>= f) (y >>= g) := by
  cases h with
  | ok h => exact hfg _ _ h
  | error e => exact .error e

theorem map {f : α → α'} {g : β → β'} (h : SameOutcome rel x y) (hfg : ∀ a b, rel a b → rel' (f a) (g b)) :
    SameOutcome rel' (x.map f) (y.map g) := by
  cases h with
  | ok h => exact .ok (hfg _ _ h)
  | error e => exact .error e

/-- Computations of which the same is seen have the same outcome, as far as it is seen. -/
theorem of_map_eq {seen : α → γ} {seen' : β → γ} (h : x.map seen = y.map seen') :
    SameOutcome (fun a b => seen a = seen' b) x y := by
  cases x with
  | error e =>
    cases y with
    | error e' =>
      cases h
      exact .error e
    | ok b => cases h
  | ok a =>
    cases y with
    | error e' => cases h
    | ok b => exact .ok (Except.ok.inj h)

theorem imp {rel' : α → β → Prop} (h : SameOutcome rel x y) (himp : ∀ a b, x = .ok a → y = .ok b → rel a b → rel' a b) :
    SameOutcome rel' x y := by
  cases h with
  | ok h => exact .ok (himp _ _ rfl rfl h)
  | error e => exact .error e

theorem of_ok {a : α} {b : β} (h : SameOutcome rel (.ok a : Except ε α) (.ok b)) : rel a b := by
  cases h with
  | ok h => exact h

end SameOutcome

/-- Two computations both fail, or they succeed with related results. -/
inductive SameSuccess (rel : α → β → Prop) : Except ε α → Except ε β → Prop where
  | ok {a : α} {b : β} (h : rel a b) : SameSuccess rel (.ok a) (.ok b)
  | error (e e' : ε) : SameSuccess rel (.error e) (.error e')

namespace SameSuccess
variable {α' β' : Type} {rel : α → β → Prop} {rel' : α' → β' → Prop} {x : Except ε α} {y : Except ε β}

theorem of_refl {rel : α → α → Prop} (h : ∀ a, rel a a) (x : Except ε α) : SameSuccess rel x x := by
  cases x with
  | ok a => exact .ok (h a)
  | error e => exact .error e e

/-- Computations of which the same is seen, or that both fail. -/
theorem of_toOption_map {seen : α → γ} {seen' : β → γ} (h : x.toOption.map seen = y.toOption.map seen') :
    SameSuccess (fun a b => seen a = seen' b) x y := by
  cases x with
  | error e =>
    cases y with
    | error e' => exact .error e e'
    | ok b => cases h
  | ok a =>
    cases y with
    | error e' => cases h
    | ok b => exact .ok (Option.some.inj h)

theorem of_toOption {y : Except ε α} (h : x.toOption = y.toOption) : SameSuccess Eq x y := by
  have hseen : SameSuccess (fun a b => id a = id b) x y := of_toOption_map (congrArg (Option.map id) h)
  exact hseen

theorem of_iff (h : (∃ a, x = .ok a) ↔ ∃ b, y = .ok b) (hrel : ∀ a b, x = .ok a → y = .ok b → rel a b) :
    SameSuccess rel x y := by
  cases x with
  | ok a =>
    obtain ⟨b, rfl⟩ := h.mp ⟨a, rfl⟩
    exact .ok (hrel a b rfl rfl)
  | error e =>
    cases y with
    | ok b => exact nomatch h.mpr ⟨b, rfl⟩
    | error e' => exact .error e e'

theorem bind {f : α → Except ε α'} {g : β → Except ε β'} (h : SameSuccess rel x y)
    (hfg : ∀ a b, rel a b → SameSuccess rel' (f a) (g b)) : SameSuccess rel' (x >>= f) (y >>= g) := by
  cases h with
  | ok h => exact hfg _ _ h
  | error e e' => exact .error e e'

/-- What follows two computations with the same result may as well follow one. -/
theorem bind_eq {y : Except ε α} {f : α → Except ε α'} {g : α → Except ε β'} (h : SameSuccess Eq x y)
    (hfg : ∀ a, SameSuccess rel' (f a) (g a)) : SameSuccess rel' (x >>= f) (y >>= g) :=
  h.bind fun a _ hab => hab ▸ hfg a

theorem map {f : α → α'} {g : β → β'} (h : SameSuccess rel x y) (hfg : ∀ a b, rel a b → rel' (f a) (g b)) :
    SameSuccess rel' (x.map f) (y.map g) := by
  cases h with
  | ok h => exact .ok (hfg _ _ h)
  | error e e' => exact .error e e'

theorem imp {rel' : α → β → Prop} (h : SameSuccess rel x y) (himp : ∀ a b, x = .ok a → y = .ok b → rel a b → rel' a b) :
    SameSuccess rel' x y := by
  cases h with
  | ok h => exact .ok (himp _ _ rfl rfl h)
  | error e e' => exact .error e e'

/-- A fold keeps the relation that every step keeps. -/
theorem foldlM {f : α → γ → Except ε α} {g : β → γ → Except ε β} {xs : List γ} {a : α} {b : β} (h : rel a b)
    (hstep : ∀ z ∈ xs, ∀ a b, rel a b → SameSuccess rel (f a z) (g b z)) :
    SameSuccess rel (xs.foldlM f a) (xs.foldlM g b) := by
  induction xs generalizing a b with
  | nil => exact .ok h
  | cons z xs ih =>
    rw [List.foldlM_cons, List.foldlM_cons]
    exact (hstep z List.mem_cons_self a b h).bind fun a b h => ih h fun z' hz' => hstep z' (List.mem_cons_of_mem z hz')

end SameSuccess

/-- What is seen of the results is what was seen of the items. -/
theorem map_eq_of_mapM_eq_ok {f : α → Except ε β} {seen : β → γ} {expected : α → γ} {xs : List α} {ys : List β}
    (hf : ∀ x ∈ xs, ∀ y, f x = .ok y → seen y = expected x) (h : xs.mapM f = .ok ys) :
    ys.map seen = xs.map expected := by
  induction xs generalizing ys with
  | nil =>
    rw [List.mapM_nil] at h
    cases h
    rfl
  | cons x xs ih =>
    rw [List.mapM_cons] at h
    obtain ⟨y, hy, h⟩ := bind_eq_ok.mp h
    obtain ⟨rest, hrest, h⟩ := bind_eq_ok.mp h
    cases h
    rw [List.map_cons, List.map_cons, hf x List.mem_cons_self y hy,
      ih (fun x' hx' => hf x' (List.mem_cons_of_mem x hx')) hrest]

/-- All items can be read if each can. -/
theorem exists_mapM_iff {f : α → Except ε β} {xs : List α} : (∃ ys, xs.mapM f = .ok ys) ↔ ∀ x ∈ xs, ∃ y, f x = .ok y := by
  induction xs with
  | nil => exact ⟨fun _ => nofun, fun _ => ⟨[], rfl⟩⟩
  | cons x xs ih =>
    rw [List.forall_mem_cons, ← ih]
    constructor
    · rintro ⟨_, h⟩
      rw [List.mapM_cons] at h
      obtain ⟨y, hy, h⟩ := bind_eq_ok.mp h
      obtain ⟨ys, hys, -⟩ := bind_eq_ok.mp h
      exact ⟨⟨y, hy⟩, ys, hys⟩
    · rintro ⟨⟨y, hy⟩, ys, hys⟩
      refine ⟨y :: ys, ?_⟩
      rw [List.mapM_cons]
      exact bind_eq_ok.mpr ⟨y, hy, bind_eq_ok.mpr ⟨ys, hys, rfl⟩⟩

/-- The first item that cannot be read is the error. -/
theorem exists_of_mapM_eq_error {f : α → Except ε β} {xs : List α} {e : ε} (h : xs.mapM f = .error e) :
    ∃ x ∈ xs, f x = .error e := by
  induction xs with
  | nil => cases h
  | cons x xs ih =>
    rw [List.mapM_cons] at h
    rcases bind_eq_error.mp h with hx | ⟨y, -, h⟩
    · exact ⟨x, List.mem_cons_self, hx⟩
    · rcases bind_eq_error.mp h with hrest | ⟨ys, -, h⟩
      · obtain ⟨x', hx', he⟩ := ih hrest
        exact ⟨x', List.mem_cons_of_mem x hx', he⟩
      · cases h

theorem exists_of_foldlM_eq_error {f : β → α → Except ε β} {xs : List α} {s : β} {e : ε} (h : xs.foldlM f s = .error e) :
    ∃ x ∈ xs, ∃ s, f s x = .error e := by
  induction xs generalizing s with
  | nil => cases h
  | cons x xs ih =>
    rw [List.foldlM_cons] at h
    rcases bind_eq_error.mp h with hx | ⟨u, -, h⟩
    · exact ⟨x, List.mem_cons_self, s, hx⟩
    · obtain ⟨x', hx', he⟩ := ih h
      exact ⟨x', List.mem_cons_of_mem x hx', he⟩

theorem foldlM_cons_eq_ok {f : β → α → Except ε β} {x : α} {xs : List α} {s t : β} :
    (x :: xs).foldlM f s = .ok t ↔ ∃ u, f s x = .ok u ∧ xs.foldlM f u = .ok t := by
  rw [List.foldlM_cons]
  exact bind_eq_ok

namespace Reported

theorem result_bind_eq_ok {x : Reported α} {f : α → Reported β} {b : β} :
    (x >>= f).result = .ok b ↔ ∃ a, x.result = .ok a ∧ (f a).result = .ok b := by
  cases h : x.result with
  | error e =>
    rw [bind_of_result_error h]
    constructor
    · intro h'
      cases h'
    · rintro ⟨a, h', -⟩
      cases h'
  | ok a =>
    rw [bind_of_result_ok h]
    constructor
    · intro h'
      exact ⟨a, rfl, h'⟩
    · rintro ⟨a', h', hf⟩
      cases h'
      exact hf

theorem result_bind_eq_error {x : Reported α} {f : α → Reported β} {e : ConfigError} :
    (x >>= f).result = .error e ↔ x.result = .error e ∨ ∃ a, x.result = .ok a ∧ (f a).result = .error e := by
  cases h : x.result with
  | error e' =>
    rw [bind_of_result_error h]
    constructor
    · intro h'
      cases h'
      exact .inl rfl
    · rintro (h' | ⟨a, h', -⟩)
      · cases h'
        rfl
      · cases h'
  | ok a =>
    rw [bind_of_result_ok h]
    constructor
    · intro h'
      exact .inr ⟨a, rfl, h'⟩
    · rintro (h' | ⟨a', h', hf⟩)
      · cases h'
      · cases h'
        exact hf

theorem exists_of_result_foldlM_eq_error {f : β → α → Reported β} {xs : List α} {s : β} {e : ConfigError}
    (h : (xs.foldlM f s).result = .error e) : ∃ x ∈ xs, ∃ s, (f s x).result = .error e := by
  induction xs generalizing s with
  | nil => cases h
  | cons x xs ih =>
    rw [List.foldlM_cons] at h
    rcases result_bind_eq_error.mp h with hx | ⟨u, -, h⟩
    · exact ⟨x, List.mem_cons_self, s, hx⟩
    · obtain ⟨x', hx', he⟩ := ih h
      exact ⟨x', List.mem_cons_of_mem x hx', he⟩

theorem result_bind (x : Reported α) (f : α → Reported β) : (x >>= f).result = x.result >>= fun a => (f a).result := by
  cases h : x.result with
  | error e =>
    rw [bind_of_result_error h]
    rfl
  | ok a =>
    rw [bind_of_result_ok h]
    rfl

theorem map_eq (f : α → β) (x : Reported α) : f <$> x = ⟨x.diagnostics, x.result.map f⟩ := by
  obtain ⟨ds, a | e⟩ := x
  · rfl
  · exact congrArg (Reported.mk · _) (List.append_nil ds)

/-- Two computations give the same diagnostics, and both fail or succeed with related results. -/
structure SameReport (rel : α → β → Prop) (x : Reported α) (y : Reported β) : Prop where
  diagnostics : x.diagnostics = y.diagnostics
  result : SameSuccess rel x.result y.result

namespace SameReport
variable {α' β' : Type} {rel : α → β → Prop} {rel' : α' → β' → Prop} {x : Reported α} {y : Reported β}

theorem of_success {x : Except ConfigError α} {y : Except ConfigError β} (h : SameSuccess rel x y) :
    SameReport rel (ofExcept x) (ofExcept y) := ⟨rfl, h⟩

theorem bind {f : α → Reported α'} {g : β → Reported β'} (h : SameReport rel x y)
    (hfg : ∀ a b, rel a b → SameReport rel' (f a) (g b)) : SameReport rel' (x >>= f) (y >>= g) := by
  obtain ⟨ds, rx⟩ := x
  obtain ⟨ds', ry⟩ := y
  obtain ⟨hds, hresult⟩ := h
  cases hds
  cases hresult with
  | ok h =>
    obtain ⟨hmore, hrest⟩ := hfg _ _ h
    exact ⟨congrArg (ds ++ ·) hmore, hrest⟩
  | error e e' => exact ⟨rfl, .error e e'⟩

theorem bind_eq {y : Reported α} {f : α → Reported α'} {g : α → Reported β'} (h : SameReport Eq x y)
    (hfg : ∀ a, SameReport rel' (f a) (g a)) : SameReport rel' (x >>= f) (y >>= g) :=
  h.bind fun a _ hab => hab ▸ hfg a

end SameReport

theorem diagnostics_bind {x : Reported α} {a : α} (h : x.result = .ok a) (f : α → Reported β) :
    (x >>= f).diagnostics = x.diagnostics ++ (f a).diagnostics := by
  rw [bind_of_result_ok h]

/-- The result of a fold depends on the results of its steps only. -/
theorem result_foldlM_congr {f g : β → α → Reported β} (h : ∀ s x, (f s x).result = (g s x).result) (xs : List α) (s : β) :
    (xs.foldlM f s).result = (xs.foldlM g s).result := by
  induction xs generalizing s with
  | nil => rfl
  | cons x xs ih =>
    rw [List.foldlM_cons, List.foldlM_cons, result_bind, result_bind, h s x]
    exact congrArg _ (funext ih)

theorem result_foldlM_cons_eq_ok {f : β → α → Reported β} {x : α} {xs : List α} {s t : β} :
    ((x :: xs).foldlM f s).result = .ok t ↔ ∃ u, (f s x).result = .ok u ∧ (xs.foldlM f u).result = .ok t := by
  rw [List.foldlM_cons]
  exact result_bind_eq_ok

/-- A fold keeps what every step keeps. -/
theorem eq_of_result_foldlM {f : β → α → Reported β} {seen : β → γ} (hf : ∀ {s x t}, (f s x).result = .ok t → seen t = seen s)
    {xs : List α} {s t : β} (h : (xs.foldlM f s).result = .ok t) : seen t = seen s := by
  induction xs generalizing s with
  | nil =>
    cases h
    rfl
  | cons x xs ih =>
    obtain ⟨u, hu, h⟩ := result_foldlM_cons_eq_ok.mp h
    exact (ih h).trans (hf hu)

/-- A fold succeeds if every step does, where that does not depend on the state. -/
theorem exists_foldlM_iff {f : β → α → Reported β} {p : α → Prop} (hf : ∀ s x, (∃ t, (f s x).result = .ok t) ↔ p x)
    {xs : List α} {s : β} : (∃ t, (xs.foldlM f s).result = .ok t) ↔ ∀ x ∈ xs, p x := by
  induction xs generalizing s with
  | nil => exact ⟨fun _ => nofun, fun _ => ⟨s, rfl⟩⟩
  | cons x xs ih =>
    rw [List.forall_mem_cons, ← hf s x]
    constructor
    · rintro ⟨t, h⟩
      obtain ⟨u, hu, h⟩ := result_foldlM_cons_eq_ok.mp h
      exact ⟨⟨u, hu⟩, ih.mp ⟨t, h⟩⟩
    · rintro ⟨⟨u, hu⟩, hrest⟩
      obtain ⟨t, ht⟩ := ih (s := u) |>.mpr hrest
      exact ⟨t, result_foldlM_cons_eq_ok.mpr ⟨u, hu, ht⟩⟩

end Reported
end AssetPlan
