import AssetPlan.Routing
import AssetPlan.Text.Split
import AssetPlan.Value.Pattern

/-! # Compiling the `files` section

The sections of `files` declare outputs by `joinTo`, and scripts by `entryPoints` too. Every output path
belongs to the first declaration of it: the joined outputs of all asset types are claimed in declaration
order before the outputs of the entry points, and a later declaration is dropped with a conflict. -/

namespace AssetPlan

/-- The bundles that a value declares: one output path for every asset, or output paths with patterns. -/
def Bundles.ofValue (key : List String) : Value → Except ConfigError Bundles
  | .string output => .ok [(output, .everything)]
  | .mapping outputs => outputs.mapM fun (output, v) => do
    let p ← v.toPattern (key ++ [output])
    .ok (output, .pattern p)
  | v => .error (.structural key (.ofKind .outputs v))

/-- Claims output paths one after the other: the bundles whose paths were free, and the paths that were
    not. -/
def Bundles.claim (claimed : List String) : Bundles → Bundles × List String
  | [] => ([], [])
  | (output, matcher) :: rest =>
    if claimed.contains output then
      let (kept, dropped) := claim claimed rest
      (kept, output :: dropped)
    else
      let (kept, dropped) := claim (claimed ++ [output]) rest
      ((output, matcher) :: kept, dropped)

namespace Routing

/-- The path that stands for the files of vendors. -/
def vendorProbe : String := "vendor/."

/-- Whether an output path is named like a vendor bundle. -/
def isVendorName (output : String) : Bool :=
  Text.occursIn "vendor".toList (output.toList.map Char.toLower)

/-- The bundle that receives the helper code of plugins: the one that takes the files of vendors, else
    one that is named like a vendor bundle, else the first. -/
def inferHelpers (bundles : Bundles) : List String :=
  let outputs := Entries.keys bundles
  let accepting := Entries.keys (bundles.filter fun b => b.2.accepts vendorProbe)
  ((accepting.head?.or (outputs.find? isVendorName)).or outputs.head?).toList

/-- The value of a key that is not null. -/
def setting? (m : Mapping) (key : String) : Option Value := (Entries.get? m key).filter fun v => ! v.isNull

/-- The bundles that `joinTo` declares. -/
def joinedBundles (type : AssetType) (declared : Mapping) : Except ConfigError Bundles :=
  match setting? declared "joinTo" with
  | none => .ok []
  | some v => Bundles.ofValue ["files", type.name, "joinTo"] v

/-- The bundles that receive the helper code of plugins, as declared or inferred. -/
def helpers (type : AssetType) (declared : Mapping) (bundles : Bundles) : Except ConfigError (List String) :=
  match setting? declared "pluginHelpers" with
  | none => .ok (inferHelpers bundles)
  | some v =>
    match v.strings? with
    | some names => .ok names
    | none => .error (.structural ["files", type.name, "pluginHelpers"] (.ofKind .stringOrStrings v))

/-- The routes of an asset type. -/
def routesOf (r : Routing) (type : AssetType) : TypeRoutes := (Entries.get? r.types type).getD .empty

/-- Writes the bundles of an entry, unless there are none. -/
def withEntry (r : Routing) (type : AssetType) (entry : String) (bundles : Bundles) (helpers : List String) :
    Routing :=
  let routes := r.routesOf type
  let entries := if bundles.isEmpty then routes.entries else Entries.insert routes.entries entry bundles
  { types := Entries.insert r.types type ⟨entries, helpers⟩
    outputPaths := r.outputPaths ++ Entries.keys bundles }

/-- Adds the joined outputs of an asset type. -/
def addJoins (r : Routing) (type : AssetType) (declared : Mapping) : Reported Routing := do
  let bundles ← joinedBundles type declared
  let (kept, dropped) := bundles.claim r.outputPaths
  Reported.report (dropped.map fun output => .conflict (.outputClaimed type output))
  let names ← helpers type declared kept
  return r.withEntry type defaultEntry kept names

/-- Adds the joined outputs of all sections, and gives the sections of asset types in order. -/
def addAllJoins (r : Routing) : List (String × Value) → Reported (Routing × List (AssetType × Mapping))
  | [] => return (r, [])
  | (name, v) :: rest =>
    match AssetType.ofName? name with
    | none => do
      Reported.report [.conflict (.unknownType name)]
      addAllJoins r rest
    | some type =>
      match v with
      | .mapping declared => do
        let r ← r.addJoins type declared
        let (r, sections) ← addAllJoins r rest
        return (r, (type, declared) :: sections)
      | v => Reported.ofExcept (.error (.structural ["files", name] (.ofKind .mapping v)))

/-- Whether a path lies in a directory. -/
def liesIn (directory path : String) : Bool :=
  (Text.dropEndWhile (· == '/') directory.toList ++ ['/']).isPrefixOf path.toList

/-- Why an output of an entry point was dropped. -/
def entryConflict (r : Routing) (type : AssetType) (entry output : String) : Conflict :=
  if Entries.has ((r.defaultBundles? type).getD []) output then .outputJoined type entry output
  else .outputUsed type entry output

/-- Adds the outputs of one entry point. -/
def addEntryPoint (watched : List String) (type : AssetType) (r : Routing) (entry : String × Value) :
    Reported Routing :=
  if entry.1 = defaultEntry then do
    Reported.report [.conflict (.reservedEntry type)]
    return r
  else do
    Reported.report (if watched.any (liesIn · entry.1) then [] else [.conflict (.unwatchedEntry entry.1)])
    let bundles ← Bundles.ofValue ["files", type.name, "entryPoints", entry.1] entry.2
    let (kept, dropped) := bundles.claim r.outputPaths
    Reported.report (dropped.map fun output => .conflict (r.entryConflict type entry.1 output))
    return if kept.isEmpty then r else r.withEntry type entry.1 kept (r.pluginHelpers type)

/-- Adds the outputs of the entry points of one section. -/
def addEntryPoints (watched : List String) (r : Routing) (declared : AssetType × Mapping) : Reported Routing :=
  match setting? declared.2 "entryPoints" with
  | none => return r
  | some v =>
    if ! declared.1.hasEntryPoints then do
      Reported.report [.conflict (.entryPointsUnsupported declared.1)]
      return r
    else
      match v with
      | .mapping entries => entries.foldlM (addEntryPoint watched declared.1) r
      | v => Reported.ofExcept (.error (.structural ["files", declared.1.name, "entryPoints"] (.ofKind .mapping v)))

/-- The routing table that a `files` section declares. -/
def ofFiles (files : Mapping) (watched : List String) : Reported Routing := do
  let (r, sections) ← empty.addAllJoins files
  sections.foldlM (addEntryPoints watched) r

end Routing
end AssetPlan
