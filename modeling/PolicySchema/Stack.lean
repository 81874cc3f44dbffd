import PolicySchema.Source

/-!
# Checks of the stack

A stage that calls itself for the parts of what it reads checks whether the stack is close to
running out, and stops with a problem if it is. What such a check finds depends on where a program
runs, so a run is given what its checks find, which may be anything.

Texts are read and schemas are resolved under such checks: there, blocks may stand inside of blocks
and common types may be put in place of each other without a limit. What reads and writes the JSON
form and what writes a text goes down into types only, no further than types may nest, and is taken
to have the stack for that.
-/

namespace PolicySchema

/-- What the coming checks of the stack find, one after another: whether it is exhausted. Once the
list is used up, it is not. -/
abbrev StackChecks := List Bool

/-- No check finds the stack exhausted. -/
def StackChecks.Ample (checks : StackChecks) : Prop := true ∉ checks

/-- Whether some check finds the stack exhausted can be tested. -/
instance (checks : StackChecks) : Decidable checks.Ample :=
  inferInstanceAs (Decidable (true ∉ checks))

/-- What the checks of the stack find that are made while a text is read: whether it is exhausted at
a stretch of the text. No two of the checks are made at the same stretch. -/
abbrev StackMap := Span → Bool

/-- The stack is exhausted nowhere. -/
def StackMap.ample : StackMap := fun _ ↦ false

end PolicySchema
