import AssetPlan.Proofs.Defaults.Step
import AssetPlan.Proofs.Value.Unset
import AssetPlan.Proofs.Value.WellKeyed

/-! # Steps on trees that agree

A step sees of a tree the section that it names and what its value reads. In two trees in which the same is set
there it does the same, whatever else they hold; a null section counts as one that is not set. So what a run makes
of the sections that it fills can be read off a tree that holds nothing else (`Agree.run`). -/

namespace AssetPlan
open Mapping
variable {m m' e e' : Mapping} {keys : List String} {key : String} {path : List String} {v : Value}
  {f : Mapping → Except ConfigError Mapping}

/-- Two trees in which the same is set under some keys and found at some settings elsewhere. -/
structure Agree (keys : List String) (reads : List (String × String)) (m e : Mapping) : Prop where
  sections : ∀ key ∈ keys, m.set? key = e.set? key
  settings : ∀ q ∈ reads, q.1 ∉ keys → m.find? [q.1, q.2] = e.find? [q.1, q.2]

/-- A step whose value depends on some settings only. -/
def Step.Reads (reads : List (String × String)) : Step → Prop
  | .fill _ _ value | .write _ _ value =>
    ∀ m e : Mapping, (∀ q ∈ reads, m.find? [q.1, q.2] = e.find? [q.1, q.2]) → value m = value e
  | _ => True

/-- The value of a setting in a section, if it is set. -/
def Mapping.setAt? (m : Mapping) (q : String × String) : Option Value :=
  (m.find? [q.1, q.2]).filter fun v => ! v.isNull

/-- A step whose value depends only on what is set at some settings. -/
def Step.ReadsSet (reads : List (String × String)) : Step → Prop
  | .fill _ _ value | .write _ _ value =>
    ∀ m e : Mapping, (∀ q ∈ reads, m.setAt? q = e.setAt? q) → value m = value e
  | _ => True

theorem Step.ReadsSet.reads {reads : List (String × String)} {s : Step} (h : s.ReadsSet reads) : s.Reads reads := by
  have hset : ∀ {m e : Mapping}, (∀ q ∈ reads, m.find? [q.1, q.2] = e.find? [q.1, q.2]) →
      ∀ q ∈ reads, m.setAt? q = e.setAt? q := by
    intro m e hfind q hq
    unfold setAt?
    rw [hfind q hq]
  cases s with
  | fill path key value | write path key value => exact fun m e hfind => h m e (hset hfind)
  | _ => trivial

namespace Agree
variable {reads : List (String × String)} {s : Step} {steps : List Step}

/-- A setting in a section of the keys is found alike, too. -/
theorem find? (h : Agree keys reads m e) {q : String × String} (hq : q ∈ reads) :
    m.find? [q.1, q.2] = e.find? [q.1, q.2] := by
  by_cases hkey : q.1 ∈ keys
  · rw [find?_pair, find?_pair, h.sections q.1 hkey]
  · exact h.settings q hq hkey

theorem insert (h : Agree keys reads m e) (hkey : key ∈ keys) (v : Value) :
    Agree keys reads (Entries.insert m key v) (Entries.insert e key v) where
  sections := by
    intro key' hkey'
    rw [set?_insert, set?_insert, h.sections key' hkey']
  settings := by
    intro q hq hout
    have hne : key ≠ q.1 := fun heq => hout (heq ▸ hkey)
    rw [find?_congr (Entries.get?_insert_of_ne hne _ _), find?_congr (Entries.get?_insert_of_ne hne _ _)]
    exact h.settings q hq hout

theorem setDefault (h : Agree keys reads m e) (hkey : key ∈ keys) (v : Value) :
    Agree keys reads (m.setDefault key v) (e.setDefault key v) := by
  unfold Mapping.setDefault
  rw [← isSome_set?, ← isSome_set?, h.sections key hkey]
  split
  · exact h
  · exact h.insert hkey v

theorem editSection (h : Agree keys reads m e) (hkey : key ∈ keys) (hedit : e.editSection key f = .ok e') :
    ∃ m', m.editSection key f = .ok m' ∧ Agree keys reads m' e' := by
  obtain ⟨old, hold, hedit⟩ := bind_eq_ok.mp hedit
  obtain ⟨fields, hfields, hedit⟩ := bind_eq_ok.mp hedit
  cases hedit
  refine ⟨Entries.insert m key (.mapping fields), ?_, h.insert hkey _⟩
  exact bind_eq_ok.mpr ⟨old, (fields?_congr (h.sections key hkey)).trans hold, bind_eq_ok.mpr ⟨fields, hfields, rfl⟩⟩

/-- An edit along a chain of keys depends on the first section only. -/
theorem editAt (h : Agree keys reads m e) (hkeys : ∀ first, path.head? = some first → first ∈ keys)
    (hhere : path = [] → ∀ e', f e = .ok e' → ∃ m', f m = .ok m' ∧ Agree keys reads m' e')
    (hedit : Mapping.editAt path f e = .ok e') : ∃ m', Mapping.editAt path f m = .ok m' ∧ Agree keys reads m' e' := by
  cases path with
  | nil => exact hhere rfl e' hedit
  | cons first rest => exact h.editSection (hkeys first rfl) hedit

theorem apply (h : Agree keys reads m e) (hreads : s.Reads reads)
    (hsection : ∀ key, s.target.head? = some key → key ∈ keys) (happly : s.apply e = .ok e') :
    ∃ m', s.apply m = .ok m' ∧ Agree keys reads m' e' := by
  have hfirst : ∀ {path : List String} {key : String}, s.target = path ++ [key] →
      ∀ first, path.head? = some first → first ∈ keys := by
    intro path key htarget first hpath
    refine hsection first ?_
    cases path with
    | nil => cases hpath
    | cons first' rest =>
      rw [htarget]
      exact hpath
  have hlast : ∀ {path : List String} {key : String}, s.target = path ++ [key] → path = [] → key ∈ keys := by
    rintro path key htarget rfl
    refine hsection key ?_
    rw [htarget]
    rfl
  cases s with
  | openSection path key =>
    exact h.editAt (hfirst rfl) (fun hpath e' hedit => h.editSection (hlast rfl hpath) hedit) happly
  | fill path key value =>
    obtain ⟨v, hv, hedit⟩ := bind_eq_ok.mp happly
    obtain ⟨m', hm', hagree⟩ := h.editAt (f := fun fields => .ok (fields.setDefault key v)) (hfirst rfl)
      (fun hpath e' hok => by
        cases hok
        exact ⟨_, rfl, h.setDefault (hlast rfl hpath) v⟩) hedit
    exact ⟨m', bind_eq_ok.mpr ⟨v, (hreads m e fun q hq => h.find? hq).trans hv, hm'⟩, hagree⟩
  | write path key value =>
    obtain ⟨v, hv, hedit⟩ := bind_eq_ok.mp happly
    obtain ⟨m', hm', hagree⟩ := h.editAt (f := fun fields => .ok (Entries.insert fields key v)) (hfirst rfl)
      (fun hpath e' hok => by
        cases hok
        exact ⟨_, rfl, h.insert (hlast rfl hpath) v⟩) hedit
    exact ⟨m', bind_eq_ok.mpr ⟨v, (hreads m e fun q hq => h.find? hq).trans hv, hm'⟩, hagree⟩
  | requireText path key =>
    refine h.editAt (hfirst rfl) (fun hpath e' hedit => ?_) happly
    obtain ⟨text, htext, hedit⟩ := bind_eq_ok.mp hedit
    cases hedit
    have hset : m.set? key = some (.string text) :=
      (h.sections key (hlast rfl hpath)).trans (set?_eq_some.mpr ⟨text?_eq_ok htext, rfl⟩)
    have htext' : Mapping.text? m path key = .ok text := by
      unfold text?
      rw [(set?_eq_some.mp hset).1]
    exact ⟨m, bind_eq_ok.mpr ⟨text, htext', rfl⟩, h⟩

/-- A run over a tree that agrees with another one succeeds as it does there, and the trees still agree. -/
theorem run (h : Agree keys reads m e) (hreads : ∀ s ∈ steps, s.Reads reads)
    (hsection : ∀ s ∈ steps.map Step.outline, ∀ key, s.2.head? = some key → key ∈ keys)
    (hrun : Step.run e steps = (e', none)) : ∃ m', Step.run m steps = (m', none) ∧ Agree keys reads m' e' := by
  induction steps generalizing m e with
  | nil =>
    cases hrun
    exact ⟨m, rfl, h⟩
  | cons s steps ih =>
    obtain ⟨mid, hmid, hrest⟩ := Step.run_cons_eq_ok.mp hrun
    obtain ⟨next, hnext, hagree⟩ := h.apply (hreads s List.mem_cons_self) (hsection s.outline List.mem_cons_self) hmid
    obtain ⟨m', hm', hagree'⟩ := ih hagree (fun t ht => hreads t (List.mem_cons_of_mem s ht))
      (fun t ht => hsection t (List.mem_cons_of_mem _ ht)) hrest
    exact ⟨m', Step.run_cons_eq_ok.mpr ⟨next, hnext, hm'⟩, hagree'⟩

end Agree

/-! ### Trees without a key twice -/

namespace Step
variable {s : Step} {steps : List Step}

/-- A step whose value has no key twice if the tree has none. -/
def Neat : Step → Prop
  | .fill _ _ value | .write _ _ value => ∀ m v, (Value.mapping m).WellKeyed → value m = .ok v → v.WellKeyed
  | _ => True

theorem wellKeyed_editAt (hf : ∀ old fields, (Value.mapping old).WellKeyed → f old = .ok fields → (Value.mapping fields).WellKeyed)
    (hw : (Value.mapping m).WellKeyed) (h : editAt path f m = .ok m') : (Value.mapping m').WellKeyed := by
  induction path generalizing m m' with
  | nil => exact hf m m' hw h
  | cons key path ih =>
    obtain ⟨fields, hfields, rfl⟩ := editSection_eq_ok h
    exact hw.insert key (ih (hw.child key) hfields)

theorem wellKeyed_apply (hneat : s.Neat) (hw : (Value.mapping m).WellKeyed) (h : s.apply m = .ok m') :
    (Value.mapping m').WellKeyed := by
  cases s with
  | openSection path key =>
    refine wellKeyed_editAt (fun old fields hold hf => ?_) hw h
    obtain ⟨es, hes, rfl⟩ := editSection_eq_ok hf
    cases hes
    exact hold.insert key (hold.child key)
  | fill path key value =>
    obtain ⟨v, hv, h⟩ := bind_eq_ok.mp h
    refine wellKeyed_editAt (fun old fields hold hf => ?_) hw h
    cases hf
    exact hold.setDefault key (hneat m v hw hv)
  | write path key value =>
    obtain ⟨v, hv, h⟩ := bind_eq_ok.mp h
    refine wellKeyed_editAt (fun old fields hold hf => ?_) hw h
    cases hf
    exact hold.insert key (hneat m v hw hv)
  | requireText path key =>
    refine wellKeyed_editAt (fun old fields hold hf => ?_) hw h
    obtain ⟨text, -, hf⟩ := bind_eq_ok.mp hf
    cases hf
    exact hold

theorem wellKeyed_run (hneat : ∀ s ∈ steps, s.Neat) (hw : (Value.mapping m).WellKeyed) (h : run m steps = (m', none)) :
    (Value.mapping m').WellKeyed := by
  induction steps generalizing m with
  | nil =>
    cases h
    exact hw
  | cons s steps ih =>
    obtain ⟨mid, hmid, hrest⟩ := run_cons_eq_ok.mp h
    exact ih (fun t ht => hneat t (List.mem_cons_of_mem s ht)) (wellKeyed_apply (hneat s List.mem_cons_self) hw hmid) hrest

end Step
end AssetPlan
