import AssetPlan.Pattern.Glob
import AssetPlan.Regex

/-! # Patterns

A pattern says which paths belong to a bundle or a convention: a glob, a regular expression searched
anywhere in the path, a predicate of the caller, or a union of patterns. A text between slashes, with
flags behind the last one, is a regular expression; any other text is a glob. -/

namespace AssetPlan

/-- A test of paths that the caller supplies. It has an identity: two predicates are the same exactly
    when they are copies of one. -/
structure Predicate where
  identity : Nat
  accepts : String → Bool

/-- A source that does not compile. -/
structure InvalidRegex where
  source : String
  deriving DecidableEq, Repr

/-- The text of the fault. -/
def InvalidRegex.message (e : InvalidRegex) : String := "invalid regular expression '" ++ e.source ++ "'"

/-- A set of paths. -/
inductive Pattern where
  | glob (source : String)
  | regex (r : Regex)
  | predicate (p : Predicate)
  /-- The union of the members. -/
  | any (members : List Pattern)

namespace Pattern

/-- The flags that may follow a regular expression between slashes: only `i` has an effect on whether
    a path matches. -/
def literalFlags : List Char := ['i', 'g', 'y']

/-- Source and flags of a text between slashes: the source reaches to the last slash and is not empty. -/
def splitLiteral? : List Char → Option (List Char × List Char)
  | '/' :: rest =>
    let flags := (rest.reverse.takeWhile (· ≠ '/')).reverse
    let source := (rest.reverse.dropWhile (· ≠ '/')).tail.reverse
    if source ≠ [] ∧ flags.all (literalFlags.contains ·) then some (source, flags) else none
  | _ => none

/-- The regular expression with a source. -/
def ofSource (source : String) (ignoreCase : Bool) : Except InvalidRegex Pattern :=
  match Regex.ofSource? source ignoreCase with
  | some r => .ok (.regex r)
  | none => .error ⟨source⟩

/-- The pattern that a text writes. -/
def ofText (text : String) : Except InvalidRegex Pattern :=
  match splitLiteral? text.toList with
  | some (source, flags) => ofSource (String.ofList source) (flags.contains 'i')
  | none => .ok (.glob text)

mutual

/-- Whether the pattern accepts a path. -/
def accepts (path : String) : Pattern → Bool
  | .glob source => Glob.accepts source path
  | .regex r => r.accepts path
  | .predicate p => p.accepts path
  | .any members => anyAccepts path members
termination_by structural p => p

/-- Whether one of the patterns accepts a path. -/
def anyAccepts (path : String) : List Pattern → Bool
  | [] => false
  | p :: rest => accepts path p || anyAccepts path rest
termination_by structural ps => ps

end

mutual

/-- A short description, for reports. -/
def describe : Pattern → String
  | .glob source => "glob:" ++ source
  | .regex r => "regex:/" ++ r.source ++ "/"
  | .predicate _ => "predicate"
  | .any members => "any[" ++ ", ".intercalate (describeAll members) ++ "]"
termination_by structural p => p

/-- The descriptions in order. -/
def describeAll : List Pattern → List String
  | [] => []
  | p :: rest => describe p :: describeAll rest
termination_by structural ps => ps

end

end Pattern
end AssetPlan
