import AssetPlan.Proofs.Cascade.Server
import AssetPlan.Proofs.Configuration
import AssetPlan.Proofs.Merge
import AssetPlan.Proofs.Options
import AssetPlan.Resolution

/-! # What holds of every finished configuration

Environments may write anything anywhere, also in place of a whole section. Still the server of a finished
configuration serves the output directory and runs only while the build goes on watching, and what the
invocation asked for is what the configuration says: the last layer is merged over the environments, and the
server is written after that. -/

namespace AssetPlan.Resolution
open Mapping
variable {defaults : Defaults} {options : Options} {tree : Value} {resolution : Resolution}

theorem ofTree_eq_ok (h : ofTree defaults options tree = .ok resolution) :
    ∃ config filled final, tree = .mapping config ∧ hasValue config "files" = true ∧
      defaults.apply ⟨options.configPath, options.persistent⟩ (Legacy.migrate config) = .ok filled ∧
      Cascade.apply filled options.environments options.layer = .ok final ∧
      (Configuration.ofTree options.environments options.isProduction final).result = .ok resolution.configuration := by
  unfold ofTree at h
  split at h
  · rename_i config
    split at h
    · rename_i hfiles
      dsimp only at h
      cases hc : (configurationOf defaults options config).result with
      | error e =>
        rw [hc] at h
        cases h
      | ok c =>
        rw [hc] at h
        cases h
        obtain ⟨final, hmerged, hread⟩ := Reported.result_bind_eq_ok.mp hc
        obtain ⟨migrated, hmigrated, hrest⟩ := Reported.result_bind_eq_ok.mp hmerged
        obtain ⟨filled, hfilled, hcascade⟩ := Reported.result_bind_eq_ok.mp hrest
        cases hmigrated
        exact ⟨config, filled, final, rfl, hfiles, hfilled, hcascade, hread⟩
    · cases h
  · cases h

theorem merged_eq {config c final : Mapping}
    (hfill : defaults.apply ⟨options.configPath, options.persistent⟩ (Legacy.migrate config) = .ok c)
    (hcascade : Cascade.apply c options.environments options.layer = .ok final) :
    merged defaults options config = ⟨(Legacy.advice config).map .deprecation, .ok final⟩ := by
  unfold merged Legacy.check
  rw [Reported.bind_of_result_ok rfl, hfill]
  show Reported.mk (_ ++ (Reported.ofExcept (Cascade.apply c options.environments options.layer)).diagnostics)
    (Cascade.apply c options.environments options.layer) = _
  rw [hcascade]
  exact congrArg (Reported.mk · _) (List.append_nil _)

theorem result_merged (config : Mapping) : (merged defaults options config).result =
    defaults.apply ⟨options.configPath, options.persistent⟩ (Legacy.migrate config) >>=
      (Cascade.apply · options.environments options.layer) := by
  unfold merged Legacy.check
  rw [Reported.result_bind]
  show (Reported.ofExcept (defaults.apply _ _) >>= fun c => Reported.ofExcept (Cascade.apply c _ _)).result = _
  rw [Reported.result_bind]
  rfl

theorem diagnostics_merged (config : Mapping) :
    (merged defaults options config).diagnostics = (Legacy.advice config).map .deprecation := by
  unfold merged Legacy.check
  rw [Reported.bind_of_result_ok rfl]
  show _ ++ (Reported.ofExcept (defaults.apply _ _) >>= fun c => Reported.ofExcept (Cascade.apply c _ _)).diagnostics = _
  cases defaults.apply ⟨options.configPath, options.persistent⟩ (Legacy.migrate config) <;> exact List.append_nil _

theorem ofTree_notProject {config : Mapping} (hfiles : hasValue config "files" = false) :
    ofTree defaults options (.mapping config) = .error .notProject := if_neg (Bool.eq_false_iff.mp hfiles)

/-- The resolution of a project is the reading of its merged tree, with the advice on the tree that was read. -/
theorem ofTree_mapping {config : Mapping} (hfiles : hasValue config "files" = true) :
    ofTree defaults options (.mapping config) = (merged defaults options config).result >>= fun t =>
      (Configuration.ofTree options.environments options.isProduction t).result.map fun c =>
        ⟨c, (Legacy.advice config).map .deprecation ++
          (Configuration.ofTree options.environments options.isProduction t).diagnostics, none⟩ := by
  unfold ofTree
  dsimp only
  rw [hfiles]
  unfold configurationOf
  cases ht : (merged defaults options config).result with
  | error e =>
    rw [Reported.bind_of_result_error ht]
    rfl
  | ok t =>
    rw [Reported.bind_of_result_ok ht, diagnostics_merged]
    rfl

/-- What holds of a finished configuration, whatever the file, the defaults and the environments say. -/
structure Settled (options : Options) (c : Configuration) : Prop where
  /-- The server serves the output directory. -/
  server_follows : c.server.publicPath = c.paths.publicPath
  persistent : c.persistent = options.persistent
  /-- A server that runs belongs to a build that goes on watching. -/
  stopped : c.server.run = true → c.persistent = true
  watched : c.paths.watched ≠ []
  public_wins : ∀ path, options.publicPath = some path → c.paths.publicPath = path
  run_wins : options.server = true → options.persistent = true → c.server.run = true
  port_wins : ∀ port, options.server = true → options.port = some port → c.server.port = port

/-- Every finished configuration is settled. -/
theorem ofTree_settled (h : ofTree defaults options tree = .ok resolution) :
    Settled options resolution.configuration := by
  obtain ⟨config, filled, final, -, -, -, hcascade, hread⟩ := ofTree_eq_ok h
  obtain ⟨-, -, hread⟩ := Configuration.ofTree_eq_ok hread
  have hw := options.wellKeyed_layer
  have hflag : Entries.get? final "persistent" = some (.bool options.persistent) := by
    rw [← find?_singleton]
    refine Cascade.find?_apply_of_leaf hcascade hw rfl (by decide) ?_
    rw [find?_singleton]
    exact options.get?_layer_persistent
  have hpersistent : resolution.configuration.persistent = options.persistent := by
    rw [flag?_eq_ok hread.persistent, hflag]
    rfl
  have hwatching : Cascade.isPersistent final = options.persistent := by
    unfold Cascade.isPersistent
    rw [hflag]
    rfl
  have hpublic := hread.find?_public
  obtain ⟨hserved, hport, hrun⟩ := hread.find?_server
  refine ⟨?follows, hpersistent, ?stopped, hread.watched_ne_nil, ?publicWins, ?runWins, ?portWins⟩
  case follows =>
    rw [Cascade.find?_apply_publicPath hcascade hpublic] at hserved
    exact (Value.string.inj (Option.some.inj hserved)).symm
  case stopped =>
    intro hruns
    rw [hpersistent]
    cases hon : options.persistent with
    | true => rfl
    | false =>
      rw [Cascade.find?_apply_run hcascade (hwatching.trans hon)] at hrun
      exact hrun.symm.trans hruns
  case publicWins =>
    intro path hpath
    have hlast := Cascade.find?_apply_of_leaf hcascade hw rfl (by decide) (Options.find?_layer_public hpath)
    rw [hlast] at hpublic
    exact (Value.string.inj (Option.some.inj hpublic)).symm
  -- What the last layer says of the server stays: only the public path and a stopped server are written later.
  case runWins =>
    intro hasked hon
    have hlast := Cascade.find?_apply_server_of_leaf hcascade hw rfl (by decide) (fun _ => hwatching.trans hon)
      (Options.find?_layer_run hasked)
    rw [hrun, hlast]
    rfl
  case portWins =>
    intro port hasked hq
    have hlast := Cascade.find?_apply_server_of_leaf hcascade hw rfl (by decide) (by simp)
      (Options.find?_layer_port hasked hq)
    rw [hlast] at hport
    exact (UInt16.toNat_inj.mp (Option.some.inj hport)).symm

/-- A project whose production environment moves the output, and writes to the server what does not count. -/
def movedProject : Value := .mapping [
  ("files", .mapping [("javascripts", .mapping [("joinTo", .string "app.js")])]),
  ("persistent", .string "never"),
  ("overrides", .mapping [("production", .mapping [
    ("paths", .mapping [("public", .string "dist")]),
    ("server", .mapping [("publicPath", .null), ("run", .bool true), ("port", .ofNat 80)])])])]

/-- A production build of it with a server on another port. -/
def servedBuild : Options := { production := true, server := true, port := some 4000 }

theorem ofTree_settled_movedProject : ∃ resolution, ofTree {} servedBuild movedProject = .ok resolution ∧
    Settled servedBuild resolution.configuration ∧ resolution.configuration.server.run = false := by
  have hok : (ofTree {} servedBuild movedProject).isOk = true := by decide +kernel
  obtain ⟨resolution, h⟩ := exists_ok_of_isOk hok
  have hsettled := ofTree_settled h
  refine ⟨resolution, h, hsettled, ?_⟩
  rw [Bool.eq_false_iff]
  intro hrun
  have hon := (hsettled.stopped hrun).symm.trans hsettled.persistent
  exact absurd hon (by decide)

end AssetPlan.Resolution
