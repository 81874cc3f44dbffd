import PolicySchema.Document.OfSchema
import PolicySchema.Document.ToJson
import PolicySchema.Json.Write

/-!
# Writing the JSON form

A schema is written as a JSON value or as its text in pretty form.
-/

namespace PolicySchema

namespace Document

/-- The JSON value of a schema. -/
def writeValue (s : Schema) : Except Error Json := do
  let d ← ofSchema s
  pure (Document.toJson d)

/-- The JSON text of a schema, in pretty form. -/
def write (s : Schema) : Except Error String := do
  let j ← writeValue s
  pure j.pretty

end Document

end PolicySchema
