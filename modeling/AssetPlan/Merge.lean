import AssetPlan.Text.Split
import AssetPlan.Value

/-! # Merging layers

A layer is merged over a base: mappings key by key, anything else by taking the layer's value. Keys keep
the order of the base, and those that only the layer has follow in its order. Below a replace node the
children are taken whole, and of two paired keys there the one that the layer leaves out is dropped. -/

namespace AssetPlan

/-- The parts of a key path written with dots. -/
def KeyPath.ofText (text : String) : List String := Text.split (· == '.') text

/-- Where a merge stops merging. In a replace node's path, `*` stands for any key. -/
structure MergePolicy where
  replaceNodes : List (List String)
  pairs : List (String × String)
  deriving DecidableEq, Repr

namespace MergePolicy

/-- Merges everywhere. -/
def deep : MergePolicy := ⟨[], []⟩

/-- The policy of environments: every section of `files` is replaced child by child, and routing to
    bundles and to entry points is replaced together. -/
def cascade : MergePolicy := ⟨[["files", "*"]], [("joinTo", "entryPoints")]⟩

/-- Makes one more replace node. -/
def replacing (policy : MergePolicy) (path : List String) : MergePolicy :=
  { policy with replaceNodes := policy.replaceNodes ++ [path] }

/-- Pairs two more keys. -/
def pairing (policy : MergePolicy) (a b : String) : MergePolicy :=
  { policy with pairs := policy.pairs ++ [(a, b)] }

/-- Whether a path is one that a replace node describes. -/
def fits : List String → List String → Bool
  | [], [] => true
  | want :: wants, key :: path => (want == "*" || want == key) && fits wants path
  | _, _ => false

/-- Whether the mapping at a path is a replace node. -/
def replaces (policy : MergePolicy) (path : List String) : Bool :=
  policy.replaceNodes.any fun node => fits node path

/-- Drops the one of two paired keys that the layer leaves out, if it has the other. -/
def resetPair (base layer : Mapping) (pair : String × String) : Mapping :=
  match Entries.has layer pair.1, Entries.has layer pair.2 with
  | true, false => Entries.erase base pair.2
  | false, true => Entries.erase base pair.1
  | _, _ => base

/-- Drops the partners of the layer's keys that the layer leaves out. -/
def resetPairs (policy : MergePolicy) (base layer : Mapping) : Mapping :=
  policy.pairs.foldl (fun base pair => resetPair base layer pair) base

end MergePolicy

namespace Value

mutual

/-- The layer merged over the base; `path` leads to both. -/
def mergeAt (policy : MergePolicy) (path : List String) (base : Value) : Value → Value
  | .mapping layer =>
    match base with
    | .mapping entries =>
      if policy.replaces path then .mapping (Entries.insertAll (policy.resetPairs entries layer) layer)
      else .mapping (mergeEntries policy path entries layer)
    | _ => .mapping layer
  | v => v
termination_by structural layer => layer

/-- The entries of a layer merged over those of the base, one after the other. -/
def mergeEntries (policy : MergePolicy) (path : List String) (base : Mapping) : List (String × Value) → Mapping
  | [] => base
  | (key, v) :: rest =>
    match Entries.get? base key with
    | some old => mergeEntries policy path (Entries.insert base key (mergeAt policy (path ++ [key]) old v)) rest
    | none => mergeEntries policy path (Entries.insert base key v) rest
termination_by structural layer => layer

end

/-- The layer merged over the base. -/
def merge (policy : MergePolicy) (base layer : Value) : Value := mergeAt policy [] base layer

end Value

/-- A mapping merged over a mapping. -/
def Mapping.merge (policy : MergePolicy) (base layer : Mapping) : Mapping :=
  if policy.replaces [] then Entries.insertAll (policy.resetPairs base layer) layer
  else Value.mergeEntries policy [] base layer

theorem Value.merge_mapping (policy : MergePolicy) (base layer : Mapping) :
    Value.merge policy (.mapping base) (.mapping layer) = .mapping (Mapping.merge policy base layer) := by
  simp only [Value.merge, Mapping.merge, Value.mergeAt]
  split <;> rfl

end AssetPlan
