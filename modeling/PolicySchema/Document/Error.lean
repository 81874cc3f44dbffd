import PolicySchema.Extension
import PolicySchema.Fault
import PolicySchema.Pointer
import PolicySchema.TypeExpr

/-!
# Errors in the JSON form

An error has a cause and the path of keys that leads to the value at fault.
-/

namespace PolicySchema

namespace Document

/-- Why a document holds no schema, or a schema has no document. -/
inductive Cause where
  /-- The text is no JSON, or the JSON value is not of the shape of a document. -/
  | malformed
  | duplicateKey (key : String)
  | invalidName (text : String) (error : NameError)
  | setWithoutElement
  | missingField (type field : String)
  | unexpectedField (type field : String)
  | notRecord (field : String)
  | misplacedRequired
  | misplacedAnnotations
  | unknownExtension (name : String)
  | enumWithField (field : String)
  | emptyEnum
  | duplicateEnumValue (value : String)
  /-- The place for a record's annotations belongs to the declaration that it stands in. -/
  | ownedAnnotations
  | tooDeep
  deriving DecidableEq, Repr

namespace Cause

/-- The message for a cause. -/
def message : Cause → String
  | malformed => "the text is not a schema document"
  | duplicateKey key => "duplicate key `" ++ key ++ "`"
  | invalidName _ error => error.message
  | setWithoutElement => "`Set` type is missing `element`"
  | missingField type field => "`" ++ type ++ "` type is missing `" ++ field ++ "`"
  | unexpectedField type field => "`" ++ field ++ "` is not allowed on a `" ++ type ++ "` type"
  | notRecord field => "`" ++ field ++ "` must be a `Record` type"
  | misplacedRequired => "`required` is only allowed on record attributes"
  | misplacedAnnotations => "`annotations` are only allowed here on `Record` types"
  | unknownExtension name => "unknown extension type `" ++ name ++ "`"
  | enumWithField field => "an enumerated entity type cannot have `" ++ field ++ "`"
  | emptyEnum => "an enumerated entity type must list at least one value"
  | duplicateEnumValue value => "duplicate enum value `" ++ value ++ "`"
  | ownedAnnotations =>
    "annotations on a record type that is directly the type of an attribute or common type"
  | tooDeep => "types are nested more than " ++ toString TypeExpr.maxDepth ++ " deep"

/-- The kind of fault that a cause is. -/
def fault : Cause → Fault
  | malformed | missingField .. | unexpectedField .. | notRecord _ | misplacedRequired
  | misplacedAnnotations | enumWithField _ | emptyEnum => .invalidJson
  | invalidName _ .reserved => .reservedIdentifier
  | invalidName .. => .invalidJson
  | duplicateKey _ => .duplicate .key
  | setWithoutElement => .setWithoutElement
  | unknownExtension _ => .unknownType
  | duplicateEnumValue _ => .duplicate .enumValue
  | ownedAnnotations => .unsupported
  | tooDeep => .tooDeep

/-- The advice given with a cause. -/
def advice? : Cause → Option String
  | unknownExtension _ => some knownExtensionsAdvice
  | setWithoutElement =>
    some "write the element type as `\"element\": \x7b \"type\": ... \x7d`"
  | _ => none

end Cause

/-- Why and where a document or a schema is at fault. -/
structure Error where
  cause : Cause
  path : Pointer
  deriving DecidableEq, Repr

namespace Error

/-- The path, unless it is the root, and the cause. -/
def message (e : Error) : String :=
  if e.path.isRoot then e.cause.message
  else "in `" ++ e.path.text ++ "`: " ++ e.cause.message

end Error

end Document

end PolicySchema
