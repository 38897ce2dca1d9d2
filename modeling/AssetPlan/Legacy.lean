import AssetPlan.Diagnostic

/-! # Legacy fields

Legacy fields are reported and never rejected. None has an effect but `onCompile`, which moves to the
hooks unless a hook of that name is set. -/

namespace AssetPlan.Legacy

/-- What a value at the key of a legacy directory is advised on. -/
def directoryAdvice (paths : Mapping) (directory : LegacyDirectory) : List Deprecation :=
  match Entries.get? paths directory.key with
  | some (.list _) => [.pathsList directory]
  | some v => if v.isNull then [] else [.pathsDirectory directory]
  | none => []

/-- The advice that applies if a condition holds. -/
def adviceIf (condition : Bool) (advice : Deprecation) : List Deprecation := if condition then [advice] else []

/-- The legacy fields of `paths`. -/
def pathAdvice (config : Mapping) : List Deprecation :=
  let paths := config.child "paths"
  adviceIf (paths.hasValue "app") .pathsApp ++ LegacyDirectory.all.flatMap (directoryAdvice paths) ++
    adviceIf (paths.hasValue "ignored") .pathsIgnored

/-- The legacy fields of the sections of `files`. -/
def fileAdvice (config : Mapping) : List Deprecation :=
  (config.child "files").flatMap fun (name, v) =>
    adviceIf (v.get? "defaultExtension").isSome (.defaultExtension name)

/-- The advice on a configuration, in the order in which its legacy fields are looked at. -/
def advice (config : Mapping) : List Deprecation :=
  pathAdvice config ++ fileAdvice config ++ adviceIf (config.hasValue "onCompile") .onCompile ++
    adviceIf (config.hasValue "rootPath") .rootPath ++ adviceIf (config.hasValue "buildPath") .buildPath

/-- Whether hooks can be written into a configuration. -/
def acceptsHooks (config : Mapping) : Bool :=
  match Entries.get? config "hooks" with
  | none => true
  | some v => v.isNull || v.isMapping

/-- The configuration with `onCompile` among its hooks. A malformed section is left alone. -/
def migrate (config : Mapping) : Mapping :=
  match Entries.get? config "onCompile" with
  | some hook =>
    if ! hook.isNull && acceptsHooks config then
      config.modifyChild "hooks" fun hooks => hooks.setDefault "onCompile" hook
    else config
  | none => config

/-- The configuration with its legacy fields migrated, and the advice on them. -/
def check (config : Mapping) : Reported Mapping :=
  ⟨(advice config).map .deprecation, .ok (migrate config)⟩

end AssetPlan.Legacy
