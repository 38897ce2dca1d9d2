import AssetPlan.Pattern

/-! # Matchers

A matcher answers for every path whether it belongs to a bundle or a convention. It accepts every path,
the paths of a pattern, or those of another matcher without some excluded ones. -/

namespace AssetPlan

/-- A membership test of paths. -/
inductive Matcher where
  | everything
  | pattern (p : Pattern)
  /-- The paths of `inner` that `exclude` does not accept. -/
  | excluding (inner : Matcher) (exclude : String → Bool)

namespace Matcher

/-- Whether the matcher accepts a path. -/
def accepts (path : String) : Matcher → Bool
  | .everything => true
  | .pattern p => p.accepts path
  | .excluding inner exclude => ! exclude path && accepts path inner

/-- Whether this is the matcher of every path. -/
def isEverything : Matcher → Bool
  | .everything => true
  | _ => false

/-- A short description, for reports; an exclusion does not show. -/
def describe : Matcher → String
  | .everything => "*"
  | .pattern p => p.describe
  | .excluding inner _ => describe inner

end Matcher
end AssetPlan
