import AssetPlan.Proofs.Cascade.Toggles
import AssetPlan.Proofs.Configuration.Unset

/-! # Plugins that a layer does not mention

A layer that names some plugins leaves the others where they are, with one exception. The lists of the
configuration so far are carried into the layer one after the other, and the second time the names that were
carried first count as names of the layer. So a plugin that stood on both lists stays on the first one only, and
it runs from then on. -/

namespace AssetPlan
open Mapping
variable {current layer m fields : Mapping} {name : String} {p : Plugins}

namespace Plugins

theorem namesOf_eq_ok {key : String} {v : Value} {names : List String} (h : namesOf key v = .ok names) :
    names = v.strings?.getD [] := by
  unfold namesOf at h
  cases v with
  | null | string s =>
    cases h
    rfl
  | list items =>
    change (PluginSelector.ofValue ["plugins", key] (.list items)).map PluginSelector.toList = .ok names at h
    change names = (Value.allStrings? items).getD []
    simp only [PluginSelector.ofValue] at h
    cases hitems : Value.allStrings? items with
    | none =>
      rw [hitems] at h
      cases h
    | some texts =>
      rw [hitems] at h
      cases h
      rfl
  | _ => cases h

theorem readLists_of_ofFields (hw : Entries.WellKeyed fields) (h : ofFields fields = .ok p) :
    readLists empty fields = .ok p.lists := by
  have hlists := lists_foldlM hw empty
  rw [show fields.foldlM add empty = .ok p from h] at hlists
  cases hread : readLists empty fields with
  | ok lists =>
    rw [hread] at hlists
    exact congrArg Except.ok (Option.some.inj hlists).symm
  | error e =>
    rw [hread] at hlists
    cases hlists

/-- The list of plugins that are turned off, as a finished configuration has it, is that of its tree. -/
theorem off_of_ofFields (hw : (Value.mapping m).WellKeyed) (h : ofFields (m.child "plugins") = .ok p) :
    p.off = Toggle.off.names m := by
  obtain ⟨on, -, hread⟩ := bind_eq_ok.mp (readLists_of_ofFields (hw.child "plugins").1 h)
  obtain ⟨off, hoff, hread⟩ := bind_eq_ok.mp hread
  obtain ⟨only, -, hread⟩ := bind_eq_ok.mp hread
  obtain ⟨-, rfl, -⟩ : on = p.on ∧ off = p.off ∧ only = p.only := by
    simpa [lists] using Except.ok.inj hread
  rw [Toggle.names_eq, show Toggle.off.key = "off" from rfl, ← get?_child]
  unfold namesAt at hoff
  cases hv : Entries.get? (m.child "plugins") "off" with
  | none =>
    rw [hv] at hoff
    exact (Except.ok.inj hoff).symm
  | some v =>
    rw [hv] at hoff
    exact namesOf_eq_ok hoff

end Plugins

namespace Cascade

/-- What one layer does to a plugin that it does not mention: on the list of those that are turned on nothing
    changes, and on the other one stays what stood on that list only. So the plugin runs afterwards if it ran
    before or stood on the first list, as long as no list says which plugins only run. -/
theorem mem_names_applyLayer_unmentioned (hwc : (Value.mapping current).WellKeyed) (hw : (Value.mapping layer).WellKeyed)
    (hl : PluginLists layer) (hon : name ∉ Toggle.on.names layer) (hoff : name ∉ Toggle.off.names layer) :
    (name ∈ Toggle.on.names (applyLayer current layer) ↔ name ∈ Toggle.on.names current) ∧
    (name ∈ Toggle.off.names (applyLayer current layer) ↔
      name ∈ Toggle.off.names current ∧ name ∉ Toggle.on.names current) ∧
    ∀ before after, Plugins.ofFields (current.child "plugins") = .ok before →
      Plugins.ofFields ((applyLayer current layer).child "plugins") = .ok after →
      before.only = [] → after.only = [] →
      (after.isEnabled name = true ↔ before.isEnabled name = true ∨ name ∈ Toggle.on.names current) := by
  have hstays : name ∈ Toggle.off.names (applyLayer current layer) ↔
      name ∈ Toggle.off.names current ∧ name ∉ Toggle.on.names current := by
    rw [hl.mem_off_applyLayer hw]
    simp [hon, hoff]
  refine ⟨by rw [hl.mem_on_applyLayer hw]; simp [hon, hoff], hstays, ?_⟩
  intro before after hbefore hafter honly honly'
  have henabled : ∀ {p : Plugins} {m : Mapping}, p.off = Toggle.off.names m → p.only = [] →
      (p.isEnabled name = true ↔ name ∉ Toggle.off.names m) := by
    intro p m hp hnone
    simp [Plugins.isEnabled, hnone, hp]
  rw [henabled (Plugins.off_of_ofFields (wellKeyed_applyLayer hwc hw) hafter) honly', henabled (Plugins.off_of_ofFields hwc hbefore) honly, hstays,
    Classical.not_and_iff_not_or_not, Classical.not_not]

/-- A project that lists a plugin both as turned on and as turned off, and one as turned off only. -/
def doublyListed : Mapping :=
  [("plugins", .mapping [("on", .list [.string "lint"]), ("off", .list [.string "lint", .string "maps"])])]

/-- A layer that turns a third plugin on. -/
def sassLayer : Mapping := [("plugins", .mapping [("on", .string "sass")])]

theorem unmentioned_doublyListed : "lint" ∈ Toggle.on.names (applyLayer doublyListed sassLayer) ∧
    "lint" ∉ Toggle.off.names (applyLayer doublyListed sassLayer) ∧
    "maps" ∈ Toggle.off.names (applyLayer doublyListed sassLayer) ∧
    ∃ after, Plugins.ofFields ((applyLayer doublyListed sassLayer).child "plugins") = .ok after ∧
      after.isEnabled "lint" = true := by
  have hwc : (Value.mapping doublyListed).WellKeyed := by decide
  have hw : (Value.mapping sassLayer).WellKeyed := by decide
  have hl : PluginLists sassLayer := by decide +kernel
  have hunmentioned : ∀ name ∈ ["lint", "maps"], ∀ toggle : Toggle, name ∉ toggle.names sassLayer := by
    rintro name hname (_ | _) <;> revert name <;> decide +kernel
  have hlint : "lint" ∈ Toggle.on.names doublyListed := by decide +kernel
  obtain ⟨hon, hoff, henabled⟩ := mem_names_applyLayer_unmentioned hwc hw hl
    (hunmentioned "lint" (by simp) .on) (hunmentioned "lint" (by simp) .off)
  have hmaps := (mem_names_applyLayer_unmentioned hwc hw hl
    (hunmentioned "maps" (by simp) .on) (hunmentioned "maps" (by simp) .off)).2.1
  refine ⟨hon.mpr hlint, fun h => (hoff.mp h).2 hlint, hmaps.mpr (by decide +kernel), ?_⟩
  exact ⟨_, rfl, (henabled _ _ rfl rfl rfl rfl).mpr (.inr hlint)⟩

/-- A plugin on both lists is taken from the second one by a layer that does not mention it, and runs from then on. -/
theorem off_forgets_doublyListed : (Value.mapping doublyListed).WellKeyed ∧ (Value.mapping sassLayer).WellKeyed ∧
    PluginLists doublyListed ∧ PluginLists sassLayer ∧
    "lint" ∉ Toggle.on.names sassLayer ∧ "lint" ∉ Toggle.off.names sassLayer ∧
    "lint" ∈ Toggle.off.names doublyListed ∧ "lint" ∉ Toggle.off.names (applyLayer doublyListed sassLayer) ∧
    (∃ before, Plugins.ofFields (doublyListed.child "plugins") = .ok before ∧ before.only = [] ∧
      before.isEnabled "lint" = false) ∧
    ∃ after, Plugins.ofFields ((applyLayer doublyListed sassLayer).child "plugins") = .ok after ∧ after.only = [] ∧
      after.isEnabled "lint" = true := by
  refine ⟨by decide, by decide, by decide +kernel, by decide +kernel, by decide +kernel, by decide +kernel,
    by decide +kernel, by decide +kernel, ⟨_, rfl, rfl, ?_⟩, _, rfl, rfl, ?_⟩ <;> decide +kernel

end Cascade
end AssetPlan
