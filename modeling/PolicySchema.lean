import PolicySchema.Document.Read
import PolicySchema.Document.Write
import PolicySchema.Proofs.References
import PolicySchema.Proofs.Table
import PolicySchema.Proofs.Text.Acceptance
import PolicySchema.Proofs.Text.ActionRecognition
import PolicySchema.Proofs.Text.Assembly
import PolicySchema.Proofs.Text.BlockRecognition
import PolicySchema.Proofs.Text.EntityRecognition
import PolicySchema.Proofs.Text.NameRecognition
import PolicySchema.Proofs.Text.NormalForm
import PolicySchema.Proofs.Text.Scanning
import PolicySchema.Proofs.Text.TypeRecognition
import PolicySchema.Proofs.Text.WrittenTokens
import PolicySchema.Resolve.Outcome
import PolicySchema.Text.Read
import PolicySchema.Text.Write
import PolicySchema.Proofs.Text.WrittenTypes
import PolicySchema.Proofs.Text.WrittenDeclarations
import PolicySchema.Proofs.Text.Statements
import PolicySchema.Proofs.Text.WrittenSchemas
import PolicySchema.Proofs.Text.RoundTrip
import PolicySchema.Proofs.Document.Members
import PolicySchema.Proofs.Json.RoundTrip
import PolicySchema.Proofs.Document.JsonForm
import PolicySchema.Proofs.Document.Written
import PolicySchema.Proofs.Document.RoundTrip
import PolicySchema.Proofs.Resolve.Meaning
import PolicySchema.Proofs.Resolve.Collected
import PolicySchema.Proofs.Resolve.Unfolding
import PolicySchema.Proofs.Resolve.Running
import PolicySchema.Proofs.Resolve.Inlining
import PolicySchema.Proofs.Resolve.Declarations
import PolicySchema.Proofs.Resolve.Substitution
import PolicySchema.Proofs.KeySet
import PolicySchema.Proofs.Hierarchy
import PolicySchema.Proofs.Related
import PolicySchema.Proofs.Resolve.Retained
import PolicySchema.Proofs.Resolve.StandingTypes
import PolicySchema.Proofs.Resolve.Found
import PolicySchema.Proofs.Resolve.Hierarchies
import PolicySchema.Proofs.Resolve.Standing
import PolicySchema.Proofs.Unicode.Utf8
import PolicySchema.Proofs.Document.Loaded
import PolicySchema.Proofs.Text.Loaded
import PolicySchema.Proofs.Nesting
import PolicySchema.Proofs.Resolve.Completed
import PolicySchema.Proofs.Resolve.Preserved
import PolicySchema.Proofs.Conversion.Readable
import PolicySchema.Proofs.Resolve.Faults
import PolicySchema.Proofs.Resolve.TypeProblems
import PolicySchema.Proofs.Resolve.ProblemLedger
import PolicySchema.Proofs.Resolve.SuccessfulRuns
import PolicySchema.Proofs.Resolve.Restated
import PolicySchema.Proofs.Conversion.Shadowed
import PolicySchema.Proofs.Conversion.Resolved
import PolicySchema.Proofs.Resolve.Framing
import PolicySchema.Proofs.Merge
import PolicySchema.Proofs.Resolve.Merged
import PolicySchema.Proofs.Resolve.Nested
import PolicySchema.Proofs.Resolve.BodyWalks
import PolicySchema.Proofs.Resolve.CommonTypesSettled
import PolicySchema.Proofs.Resolve.FewerExtensions
import PolicySchema.Proofs.Resolve.Enabled
import PolicySchema.Proofs.Resolve.Visiting
import PolicySchema.Proofs.Resolve.Spelling
import PolicySchema.Proofs.Json.DistinctKeys
import PolicySchema.Proofs.Document.Distinct
import PolicySchema.Proofs.Document.Ordered
import PolicySchema.Proofs.Text.Lockstep
import PolicySchema.Proofs.Text.LockstepGrammar
import PolicySchema.Proofs.Text.LockstepBlocks
import PolicySchema.Proofs.Text.LockstepRead
import PolicySchema.Proofs.Text.Seams
import PolicySchema.Proofs.Text.Concatenation
import PolicySchema.Proofs.Source
import PolicySchema.Proofs.Text.Spans
import PolicySchema.Proofs.Text.Naming
import PolicySchema.Proofs.Text.Located
import PolicySchema.Proofs.Members
import PolicySchema.Proofs.Overdeep
import PolicySchema.Proofs.Text.Vetting
import PolicySchema.Proofs.Text.Refusal
import PolicySchema.Proofs.Text.Overdeep
import PolicySchema.Proofs.Document.Overdeep
import PolicySchema.Proofs.Conversion.NestingLimit
import PolicySchema.Text.Calls
import PolicySchema.Proofs.Text.Tiling
import PolicySchema.Proofs.Text.Calls
import PolicySchema.Proofs.Identifiers
import PolicySchema.Proofs.Text.Words
import PolicySchema.Proofs.WellFormed
import PolicySchema.Proofs.Document.NamedFields
import PolicySchema.Proofs.Document.Addressed
import PolicySchema.Proofs.Text.Quoting
import PolicySchema.Proofs.NameOrder
import PolicySchema.Proofs.NameReading
import PolicySchema.Proofs.Resolve.Placing
import PolicySchema.Proofs.Pointer
import PolicySchema.Proofs.Identities
