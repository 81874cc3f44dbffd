import PolicySchema.Resolved
import PolicySchema.Resolve.Error
import PolicySchema.Stack

/-!
# The state of resolving

While schemas are resolved, a state keeps what is known of each common type, the problems found so
far, the number of sets and records that are open, and what is still to be found of the stack. Steps
on the state report problems, note what is known, and open and close sets and records.
-/

namespace PolicySchema.Resolve

/-- The declaration that a reference stands in. -/
structure Origin where
  /-- The words for the declaration. -/
  label : String
  location : Option Location
  deriving DecidableEq

/-- What is known of a common type. -/
inductive Progress where
  /-- Its body has not been walked. -/
  | waiting
  /-- Its body is being walked. -/
  | walking
  /-- Its body was walked and gave a type with its depth, or a problem was reported. -/
  | settled (outcome : Option (ResolvedType × Nat))
  deriving DecidableEq

/-- The state of a run. -/
structure State where
  common : Table Name Progress
  problems : List Problem
  /-- The number of sets and records around the type being resolved. -/
  depth : Nat
  /-- The common types whose bodies were walked, the latest first. -/
  walked : List Name
  checks : StackChecks
  deriving DecidableEq

/-- A step of a run. -/
abbrev Resolving (α : Type) := StateM State α

namespace Resolving

/-- Reports a problem. -/
def report (cause : Cause) (location : Option Location) : Resolving Unit :=
  modify fun s ↦ { s with problems := s.problems ++ [⟨cause, location⟩] }

/-- Reports a problem and has no result. -/
def reject {α : Type} (cause : Cause) (origin : Origin) : Resolving (Option α) := do
  report cause origin.location
  pure none

/-- Notes what is known of a common type. -/
def settle (name : Name) (progress : Progress) : Resolving Unit :=
  modify fun s ↦ { s with common := s.common.insert name progress }

/-- Changes the number of open sets and records. -/
def setDepth (depth : Nat) : Resolving Unit := modify fun s ↦ { s with depth }

/-- Notes that the body of a common type is walked. -/
def noteWalk (name : Name) : Resolving Unit := modify fun s ↦ { s with walked := name :: s.walked }

/-- Whether the stack is exhausted. -/
def stackExhausted : Resolving Bool := do
  let s ← get
  set { s with checks := s.checks.tail }
  pure (s.checks.headD false)

/-- Checks that there is stack left. Reports the problem and gives `false` if there is not. -/
def withinStack (cause : Cause) (location : Option Location) : Resolving Bool := do
  if ← stackExhausted then
    report cause location
    pure false
  else pure true

/-- Checks that sets and records may nest as deep as this. Reports a problem and gives `false` if
they may not, or if there is no stack left. -/
def withinDepth (origin : Origin) (depth : Nat) : Resolving Bool := do
  if TypeExpr.maxDepth < depth then
    report (.tooDeep origin.label) origin.location
    pure false
  else withinStack (.tooDeep origin.label) origin.location

/-- Opens a set or a record. Reports a problem and gives `false` if that is too deep. -/
def openLevel (origin : Origin) : Resolving Bool := do
  let s ← get
  if ← withinDepth origin (s.depth + 1) then
    setDepth (s.depth + 1)
    pure true
  else pure false

/-- Closes a set or a record. -/
def closeLevel : Resolving Unit := modify fun s ↦ { s with depth := s.depth - 1 }

end Resolving

end PolicySchema.Resolve
