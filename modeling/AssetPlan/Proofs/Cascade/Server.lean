import AssetPlan.Cascade
import AssetPlan.Proofs.Merge
import AssetPlan.Proofs.Value.Section

/-! # The server after a cascade

Two settings of the server are written last: the output directory, which follows that of the paths, and
whether it runs at all. Both look at the merged configuration, so no layer can set them apart. -/

namespace AssetPlan.Cascade
open Mapping
variable {config followed stopped last final : Mapping} {environments : List String} {key : String} {q : List String}
  {v : Value}

theorem apply_eq_ok (h : apply config environments last = .ok final) :
    ∃ current followed, applyEnvironments config environments = .ok current ∧
      followPublicPath (Mapping.merge .cascade current last) = .ok followed ∧ stopServer followed = .ok final := by
  obtain ⟨current, hcurrent, h⟩ := bind_eq_ok.mp h
  obtain ⟨followed, hfollowed, h⟩ := bind_eq_ok.mp h
  exact ⟨current, followed, hcurrent, hfollowed, h⟩

theorem get?_followPublicPath (h : followPublicPath config = .ok followed) (hne : key ≠ "server") :
    Entries.get? followed key = Entries.get? config key := by
  unfold followPublicPath at h
  split at h
  · cases h
    rfl
  · exact get?_editSection h hne.symm

theorem find?_followPublicPath (h : followPublicPath config = .ok followed) (below : String) :
    followed.find? ["server", below] =
      if "publicPath" = below then (config.find? ["paths", "public"]).or (config.find? ["server", below])
      else config.find? ["server", below] := by
  unfold followPublicPath at h
  split at h
  · rename_i hpublic
    cases h
    rw [hpublic, Option.none_or, ite_self]
  · rename_i hpublic
    rw [find?_editSection h, hpublic]
    rfl

theorem get?_stopServer (h : stopServer config = .ok stopped) (hne : key ≠ "server") :
    Entries.get? stopped key = Entries.get? config key := by
  unfold stopServer at h
  split at h
  · cases h
    rfl
  · exact get?_editSection h hne.symm

theorem find?_stopServer (h : stopServer config = .ok stopped) (below : String) :
    stopped.find? ["server", below] =
      if isPersistent config = false ∧ "run" = below then some (.bool false) else config.find? ["server", below] := by
  unfold stopServer at h
  split at h
  · rename_i hpersistent
    cases h
    rw [hpersistent, if_neg fun hstop => Bool.noConfusion hstop.1]
  · rename_i hpersistent
    rw [find?_editSection h]
    simp [hpersistent]

/-- What is written to the server is not seen from elsewhere. -/
theorem find?_followPublicPath_of_apart (h : followPublicPath config = .ok followed)
    (hq : KeyPath.Apart ["server", "publicPath"] q) : followed.find? q = config.find? q := by
  unfold followPublicPath at h
  split at h
  · cases h
    rfl
  · obtain ⟨fields, hfields, rfl⟩ := editSection_eq_ok h
    cases hfields
    exact find?_insert_setting hq

theorem find?_stopServer_of_apart (h : stopServer config = .ok stopped) (hq : KeyPath.Apart ["server", "run"] q) :
    stopped.find? q = config.find? q := by
  unfold stopServer at h
  split at h
  · cases h
    rfl
  · obtain ⟨fields, hfields, rfl⟩ := editSection_eq_ok h
    cases hfields
    exact find?_insert_setting hq

theorem isPersistent_stopServer (h : stopServer config = .ok stopped) : isPersistent stopped = isPersistent config := by
  unfold isPersistent
  rw [get?_stopServer h (by decide)]

/-- A server that follows already is left as it is. -/
theorem followPublicPath_self (hpublic : config.find? ["paths", "public"] = some v)
    (hserver : config.find? ["server", "publicPath"] = some v) : followPublicPath config = .ok config := by
  obtain ⟨server, hfields, hkey⟩ := find?_concat_eq_some (p := ["server"]).mp hserver
  rw [find?_singleton] at hfields
  unfold followPublicPath
  rw [hpublic]
  exact editSection_self hfields (congrArg Except.ok (Entries.insert_of_get?_eq_some hkey))

/-- A server that does not run is left as it is. -/
theorem stopServer_self (hrun : isPersistent config = false → config.find? ["server", "run"] = some (.bool false)) :
    stopServer config = .ok config := by
  unfold stopServer
  split
  · rfl
  · rename_i hp
    obtain ⟨server, hfields, hkey⟩ := find?_concat_eq_some (p := ["server"]).mp (hrun (Bool.eq_false_iff.mpr hp))
    rw [find?_singleton] at hfields
    exact editSection_self hfields (congrArg Except.ok (Entries.insert_of_get?_eq_some hkey))

/-! ### The end of a cascade -/

/-- The server serves the output directory. -/
theorem find?_apply_publicPath (h : apply config environments last = .ok final)
    (hv : final.find? ["paths", "public"] = some v) : final.find? ["server", "publicPath"] = some v := by
  obtain ⟨current, followed, -, hfollowed, hstopped⟩ := apply_eq_ok h
  have hpaths : final.find? ["paths", "public"] = Mapping.find? _ ["paths", "public"] :=
    find?_congr ((get?_stopServer hstopped (by decide)).trans (get?_followPublicPath hfollowed (by decide))) _
  rw [find?_stopServer hstopped, if_neg (by simp), find?_followPublicPath hfollowed, if_pos rfl, ← hpaths, hv]
  rfl

/-- The server does not run in a build that does not go on watching. -/
theorem find?_apply_run (h : apply config environments last = .ok final) (hp : isPersistent final = false) :
    final.find? ["server", "run"] = some (.bool false) := by
  obtain ⟨current, followed, -, hfollowed, hstopped⟩ := apply_eq_ok h
  rw [isPersistent_stopServer hstopped] at hp
  rw [find?_stopServer hstopped, if_pos ⟨hp, rfl⟩]

/-- A value of the last layer outside of the server is final. -/
theorem find?_apply_of_leaf (h : apply config environments last = .ok final) (hw : (Value.mapping last).WellKeyed)
    (hv : v.isMapping = false) (hne : key ≠ "server") (hlast : last.find? (key :: q) = some v) :
    final.find? (key :: q) = some v := by
  obtain ⟨current, followed, -, hfollowed, hstopped⟩ := apply_eq_ok h
  rw [find?_congr ((get?_stopServer hstopped hne).trans (get?_followPublicPath hfollowed hne))]
  exact find?_merge_of_leaf hw hv hlast

/-- A setting of the server in the last layer is final, but for the two that are written after it. -/
theorem find?_apply_server_of_leaf {below : String} (h : apply config environments last = .ok final)
    (hw : (Value.mapping last).WellKeyed) (hv : v.isMapping = false) (hpublic : "publicPath" ≠ below)
    (hrun : "run" = below → isPersistent final = true) (hlast : last.find? ["server", below] = some v) :
    final.find? ["server", below] = some v := by
  obtain ⟨current, followed, -, hfollowed, hstopped⟩ := apply_eq_ok h
  rw [isPersistent_stopServer hstopped] at hrun
  rw [find?_stopServer hstopped, if_neg, find?_followPublicPath hfollowed, if_neg hpublic]
  · exact find?_merge_of_leaf hw hv hlast
  · rintro ⟨hp, hbelow⟩
    rw [hrun hbelow] at hp
    cases hp

end AssetPlan.Cascade
