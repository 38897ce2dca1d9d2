import AssetPlan.Proofs.Cascade.Layers

/-! # The snapshot after a cascade

The snapshot is taken before the first layer and lies where the layers themselves are read from. As long as no
layer writes to `overrides`, every merge leaves that section alone, and so does what is written to the server,
so the snapshot of the result is that of the configuration at the start. -/

namespace AssetPlan.Cascade
open Mapping
variable {config last final current overrides : Mapping} {environments : List String}

theorem overrides_foldl_applyLayer {rest : List Mapping} (hl : ∀ layer ∈ rest, Entries.get? layer "overrides" = none) :
    Entries.get? (rest.foldl applyLayer current) "overrides" = Entries.get? current "overrides" := by
  induction rest generalizing current with
  | nil => rfl
  | cons layer rest ih =>
    obtain ⟨hlayer, hrest⟩ := List.forall_mem_cons.mp hl
    exact (ih hrest).trans (overrides_applyLayer hlayer)

theorem overrides_apply (hl : ∀ layer ∈ layers config environments, Entries.get? layer "overrides" = none)
    (hlast : Entries.get? last "overrides" = none) (h : apply config environments last = .ok final) :
    Entries.get? final "overrides" = Entries.get? (start config environments) "overrides" := by
  rw [get?_apply hl h (by decide), get?_merge_of_none hlast]
  exact overrides_foldl_applyLayer hl

/-- The snapshot is faithful and stays intact. If no layer writes to `overrides`, a cascade of environments
    leaves there the sections of the configuration as they were, in their order, under the name of the
    snapshot, and every other entry as it was. A cascade of none leaves all of `overrides` as it was. -/
theorem snapshot_apply (hover : Entries.get? config "overrides" = some (.mapping overrides))
    (hl : ∀ layer ∈ layers config environments, Entries.get? layer "overrides" = none)
    (hlast : Entries.get? last "overrides" = none) (h : apply config environments last = .ok final) :
    (environments = [] → Entries.get? final "overrides" = some (.mapping overrides)) ∧
    (environments ≠ [] → ∃ kept, Entries.get? final "overrides" = some (.mapping kept) ∧
      Entries.get? kept "_default" = some (.mapping (config.filter fun e => e.1 ≠ "overrides" && e.2.isMapping)) ∧
      Entries.erase kept "_default" = Entries.erase overrides "_default" ∧
      ∀ name, name ≠ "_default" → Entries.get? kept name = Entries.get? overrides name) := by
  have hfinal := overrides_apply hl hlast h
  constructor
  · rintro rfl
    exact hfinal.trans hover
  · intro hne
    obtain ⟨environment, rest, rfl⟩ := List.exists_cons_of_ne_nil hne
    refine ⟨Entries.insert overrides snapshotName (.mapping (snapshot config)), ?_, Entries.get?_insert_self _ _ _,
      Entries.erase_insert _ _ _, fun name hname => Entries.get?_insert_of_ne hname.symm _ _⟩
    rw [hfinal]
    show Entries.get? (snapshotted config) "overrides" = _
    rw [snapshotted_eq hover, Entries.get?_insert_self]

/-- A project that writes a `_default` of its own, and an environment that moves its sources. -/
def ownDefault : Mapping := [
  ("notifications", .bool true), ("paths", .mapping [("root", .string "."), ("public", .string "public")]),
  ("overrides", .mapping [
    ("_default", .mapping [("paths", .mapping [("root", .string "mine")])]),
    ("ci", .mapping [("paths", .mapping [("root", .string "build")])])]),
  ("server", .mapping [("port", .string "3333")])]

theorem snapshot_apply_ownDefault : ∃ final, apply ownDefault ["ci", "_default"] [("optimize", .bool true)] = .ok final ∧
    final.find? ["overrides", "_default", "paths", "root"] = some (.string ".") ∧
    final.find? ["overrides", "_default", "notifications"] = none ∧
    final.find? ["overrides", "ci", "paths", "root"] = some (.string "build") := by
  have hl : ∀ layer ∈ layers ownDefault ["ci", "_default"], Entries.get? layer "overrides" = none := by decide +kernel
  have hok : (apply ownDefault ["ci", "_default"] [("optimize", .bool true)]).isOk = true := by decide +kernel
  obtain ⟨final, h⟩ := exists_ok_of_isOk hok
  obtain ⟨-, hsome⟩ := snapshot_apply rfl hl rfl h
  obtain ⟨kept, hkept, hsnapshot, -, hother⟩ := hsome (by decide)
  have hbelow : ∀ q, final.find? ("overrides" :: q) = (Value.mapping kept).find? q := by
    intro q
    rw [find?_cons_eq, hkept]
    rfl
  refine ⟨final, h, ?_, ?_, ?_⟩
  · rw [hbelow]
    show (Entries.get? kept "_default").bind _ = _
    rw [hsnapshot]
    rfl
  · rw [hbelow]
    show (Entries.get? kept "_default").bind _ = _
    rw [hsnapshot]
    rfl
  · rw [hbelow]
    show (Entries.get? kept "ci").bind _ = _
    rw [hother "ci" (by decide)]
    rfl

end AssetPlan.Cascade
