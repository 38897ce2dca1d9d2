import AssetPlan.CommandLine.Arguments
import AssetPlan.Report

/-! # The command line

What the program prints and the code with which it exits. Both commands resolve alike, so they fail
alike: the code is 2 for a misused command line and for a configuration that cannot be loaded, and 1 for
one that is not valid. -/

namespace AssetPlan.CommandLine

/-- The variable of the process that names one more environment. -/
def variableName : String := "BUILDCONF_ENV"

/-- What the program prints and how it exits. -/
structure Outcome where
  exitCode : Nat
  /-- The lines on standard output. -/
  output : List String
  /-- The line on standard error. -/
  error : Option String
  deriving DecidableEq, Repr

/-- Name and version of the program. -/
def versionText : String := "buildconf 0.1.0"

/-- How the program is used. -/
def usage : String := "Usage: buildconf <resolve|check> [OPTIONS]"

/-- The outcome of a command line that asks for no resolution. -/
def ended : Ending → Outcome
  | .version => ⟨0, [versionText], none⟩
  | .help => ⟨0, [usage], none⟩
  | .misuse => ⟨2, [], some usage⟩

/-- The outcome of a resolution that failed. -/
def failed (e : ConfigError) : Outcome := ⟨e.exitCode, [], some ("Configuration error: " ++ e.message)⟩

/-- The outcome of a resolution that succeeded. -/
def succeeded (command : Command) (r : Resolution) : Outcome :=
  let report := Report.ofResolution r
  match command with
  | .resolve => ⟨0, [report.text], none⟩
  | .check => ⟨0, (report.diagnostics.map fun d => "  warning: " ++ d.message) ++ [report.summary], none⟩

/-- The resolution that arguments ask for: of a file with a known extension, or of a project. -/
def resolution (files : FileSystem) (processName : Option String) (a : Arguments) : Except ConfigError Resolution :=
  if (Format.ofPath? a.configPath).isSome then Resolution.ofFile files a.configPath (a.options processName)
  else Resolution.ofProject files a.configPath (a.options processName)

/-- The files that a resolution may look at. -/
def paths (a : Arguments) : List String :=
  if (Format.ofPath? a.configPath).isSome then [a.configPath] else Source.candidates a.configPath

/-- The outcome of a command line. -/
def run (files : FileSystem) (processName : Option String) (arguments : List String) : Outcome :=
  match Command.ofArguments arguments with
  | .error ending => ended ending
  | .ok (command, a) =>
    match resolution files processName a with
    | .ok r => succeeded command r
    | .error e => failed e

end AssetPlan.CommandLine
