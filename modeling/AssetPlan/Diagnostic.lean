import AssetPlan.AssetType
import AssetPlan.ConfigError

/-! # Diagnostics

Advice that does not stop a resolution: a conflict says that a declaration was dropped or ignored, a
deprecation that a legacy field was found. A computation that reports diagnostics gives them in order
also when it fails. -/

namespace AssetPlan

/-- Why a declaration was dropped or ignored. -/
inductive Conflict where
  /-- A section of `files` is for no asset type. -/
  | unknownType (name : String)
  /-- A joined output has an owner already. -/
  | outputClaimed (type : AssetType) (output : String)
  /-- The asset type has no entry points. -/
  | entryPointsUnsupported (type : AssetType)
  /-- The name of joined routing is used for an entry point. -/
  | reservedEntry (type : AssetType)
  /-- An entry point lies in no watched directory. -/
  | unwatchedEntry (entry : String)
  /-- An output of an entry point is a joined output of the same asset type. -/
  | outputJoined (type : AssetType) (entry output : String)
  /-- An output of an entry point has another owner already. -/
  | outputUsed (type : AssetType) (entry output : String)
  /-- A conflict in the caller's words. -/
  | other (message : String)
  deriving DecidableEq, Repr

/-- The name under which routing that is tied to no entry point stands. -/
def defaultEntry : String := "*"

/-- The text of a conflict. -/
def Conflict.message : Conflict → String
  | .unknownType name =>
    "config.files." ++ name ++ " is not a known asset type (expected one of: javascripts, stylesheets, templates), ignoring"
  | .outputClaimed type output =>
    "'" ++ output ++ "' is already claimed by another join, dropping it from config.files." ++ type.name ++ ".joinTo"
  | .entryPointsUnsupported type =>
    "config.files." ++ type.name ++ ".entryPoints is not supported, only javascripts can declare entry points; ignoring"
  | .reservedEntry type =>
    "'" ++ defaultEntry ++ "' is reserved for config.files." ++ type.name ++
      ".joinTo routing, can't use it as an entry point; ignoring"
  | .unwatchedEntry entry =>
    "entry points map an entry file to an output file ('entry.js': 'output.js'); '" ++ entry ++
      "' is not under a watched directory and is probably an output file"
  | .outputJoined type entry output =>
    "config.files." ++ type.name ++ ".joinTo already defines '" ++ output ++
      "', can't add it as an output of entry point '" ++ entry ++ "'"
  | .outputUsed type entry output =>
    "'" ++ output ++ "' is already used by another join or entry point, can't add it to config.files." ++ type.name ++
      ".entryPoints for '" ++ entry ++ "'"
  | .other message => message

/-- A directory that once had a path of its own. -/
inductive LegacyDirectory where
  | test
  | vendor
  | assets
  deriving DecidableEq, Repr

namespace LegacyDirectory

/-- The legacy directories in the order in which they are looked at. -/
def all : List LegacyDirectory := [.test, .vendor, .assets]

/-- The key of the directory under `paths`. -/
def key : LegacyDirectory → String
  | .test => "test"
  | .vendor => "vendor"
  | .assets => "assets"

/-- The convention that took the place of a list of directories. -/
def convention : LegacyDirectory → String
  | .test => "ignored"
  | .vendor => "vendor"
  | .assets => "assets"

end LegacyDirectory

/-- A legacy field that was found. -/
inductive Deprecation where
  | pathsApp
  | pathsList (directory : LegacyDirectory)
  | pathsDirectory (directory : LegacyDirectory)
  | pathsIgnored
  | defaultExtension (sectionName : String)
  | onCompile
  | rootPath
  | buildPath
  /-- A deprecation in the caller's words. -/
  | other (message : String)
  deriving DecidableEq, Repr

/-- The text of a deprecation. -/
def Deprecation.message : Deprecation → String
  | .pathsApp => "config.paths.app was removed, use config.paths.watched"
  | .pathsList d => "config.paths." ++ d.key ++ " as a list is deprecated, use config.conventions." ++ d.convention
  | .pathsDirectory d => "config.paths." ++ d.key ++ " was removed, use config.paths.watched"
  | .pathsIgnored => "config.paths.ignored was moved to config.conventions.ignored"
  | .defaultExtension s =>
    "config.files." ++ s ++ ".defaultExtension was removed, the extension is taken from the compiler"
  | .onCompile => "config.onCompile was moved to config.hooks.onCompile"
  | .rootPath => "config.rootPath was renamed to config.paths.root"
  | .buildPath => "config.buildPath was renamed to config.paths.public"
  | .other message => message

/-- A piece of advice. -/
inductive Diagnostic where
  | conflict (c : Conflict)
  | deprecation (d : Deprecation)
  deriving DecidableEq, Repr

namespace Diagnostic

/-- Whether the diagnostic is a conflict. -/
def isConflict : Diagnostic → Bool
  | .conflict _ => true
  | .deprecation _ => false

/-- The name of the kind of a diagnostic. -/
def kindName : Diagnostic → String
  | .conflict _ => "conflict"
  | .deprecation _ => "deprecation"

/-- The text of a diagnostic. -/
def message : Diagnostic → String
  | .conflict c => c.message
  | .deprecation d => d.message

end Diagnostic

/-- A result or an error, with the diagnostics that were reported up to there. -/
structure Reported (α : Type) where
  diagnostics : List Diagnostic
  result : Except ConfigError α

namespace Reported
variable {α β : Type}

/-- A result without diagnostics. -/
protected def pure (a : α) : Reported α := ⟨[], .ok a⟩

/-- Goes on with a result; an error ends the computation. -/
protected def bind (x : Reported α) (f : α → Reported β) : Reported β :=
  match x.result with
  | .ok a =>
    let y := f a
    ⟨x.diagnostics ++ y.diagnostics, y.result⟩
  | .error e => ⟨x.diagnostics, .error e⟩

instance : Monad Reported where
  pure := Reported.pure
  bind := Reported.bind

/-- Reports diagnostics. -/
def report (ds : List Diagnostic) : Reported Unit := ⟨ds, .ok ()⟩

/-- A computation without diagnostics. -/
def ofExcept (x : Except ConfigError α) : Reported α := ⟨[], x⟩

instance : MonadLift (Except ConfigError) Reported where
  monadLift := ofExcept

@[simp] theorem diagnostics_pure (a : α) : (pure a : Reported α).diagnostics = [] := rfl

@[simp] theorem result_pure (a : α) : (pure a : Reported α).result = .ok a := rfl

@[simp] theorem bind_report (ds : List Diagnostic) (f : Unit → Reported β) :
    report ds >>= f = ⟨ds ++ (f ()).diagnostics, (f ()).result⟩ := rfl

@[simp] theorem bind_ofExcept_ok (a : α) (f : α → Reported β) : ofExcept (.ok a) >>= f = f a := rfl

@[simp] theorem bind_ofExcept_error (e : ConfigError) (f : α → Reported β) :
    ofExcept (.error e) >>= f = ofExcept (.error e) := rfl

theorem bind_of_result_ok {x : Reported α} {a : α} (h : x.result = .ok a) (f : α → Reported β) :
    x >>= f = ⟨x.diagnostics ++ (f a).diagnostics, (f a).result⟩ := by
  show Reported.bind x f = _
  rw [Reported.bind, h]

theorem bind_of_result_error {x : Reported α} {e : ConfigError} (h : x.result = .error e) (f : α → Reported β) :
    x >>= f = ⟨x.diagnostics, .error e⟩ := by
  show Reported.bind x f = _
  rw [Reported.bind, h]

instance : LawfulMonad Reported := by
  refine LawfulMonad.mk' Reported ?_ (fun _ _ => rfl) ?_
  · rintro α ⟨ds, a | e⟩
    · rfl
    · show Reported.mk (ds ++ []) _ = _
      rw [List.append_nil]
      rfl
  · rintro α β γ ⟨ds, a | e⟩ f g
    · rfl
    · show Reported.bind (Reported.bind _ f) g = Reported.bind _ fun a => Reported.bind (f a) g
      simp only [Reported.bind]
      cases (f e).result <;> simp

end Reported
end AssetPlan
