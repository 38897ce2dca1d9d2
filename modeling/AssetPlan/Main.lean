import AssetPlan.CommandLine

/-! # The program

Reads the files that a command line names, and prints the outcome. -/

namespace AssetPlan.Main

/-- Why a file could not be read. -/
def faultOf : IO.Error → ReadFault
  | .noFileOrDirectory _ _ _ => .missing
  | .inappropriateType _ 20 _ => .notDirectory
  | .inappropriateType _ 21 _ => .directory
  | e => .other (toString e)

/-- The bytes of a file. -/
def readFile (path : String) : IO (Except ReadFault (List UInt8)) := do
  try
    return .ok (← IO.FS.readBinFile path).toList
  catch e => return .error (faultOf e)

/-- Those of the paths that can be read, with their bytes, as a file system. -/
def observe (paths : List String) : IO FileSystem := do
  let entries ← paths.mapM fun path => do return (path, ← readFile path)
  return {
    isFile := fun path => ((Entries.get? entries path).map Except.isOk).getD false
    read := fun path => (Entries.get? entries path).getD (.error .missing) }

/-- The files that a command line names. -/
def pathsOf (arguments : List String) : List String :=
  match Command.ofArguments arguments with
  | .ok (_, a) => CommandLine.paths a
  | .error _ => []

end AssetPlan.Main

/-- Runs the program. -/
def main (arguments : List String) : IO UInt32 := do
  let files ← AssetPlan.Main.observe (AssetPlan.Main.pathsOf arguments)
  let outcome := AssetPlan.CommandLine.run files (← IO.getEnv AssetPlan.CommandLine.variableName) arguments
  for line in outcome.output do
    IO.println line
  for line in outcome.error do
    IO.eprintln line
  return UInt32.ofNat outcome.exitCode
