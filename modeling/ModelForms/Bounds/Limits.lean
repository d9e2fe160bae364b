/-!
# Limits

How deep a walk over a model, an alias or a value may go, and how much it may do.
-/

namespace ModelForms

namespace Limits

/-- Groups and arrays that may stand inside each other in a form tree.  It also bounds a chain of
aliases. -/
def modelDepth : Nat := 64

/-- Steps of types and values that matching a value may take inside each other. -/
def matchingDepth : Nat := 128

/-- Type expressions that may stand inside each other. -/
def expressionDepth : Nat := 64

/-- Keys that a guard accepts over its lifetime. -/
def expansionSteps : Nat := 100000

/-- Mismatches that one check reports. -/
def reportedMismatches : Nat := 100

end Limits

/-- The kinds of walk that are bounded. -/
inductive WalkKind where
  /-- Expanding a model into a form tree. -/
  | expansion
  /-- Following a chain of aliases. -/
  | aliases
  /-- Matching a value against a type. -/
  | matching
deriving DecidableEq, Repr

/-- How deep a kind of walk may go. -/
def WalkKind.maxDepth : WalkKind → Nat
  | .expansion | .aliases => Limits.modelDepth
  | .matching => Limits.matchingDepth

end ModelForms
