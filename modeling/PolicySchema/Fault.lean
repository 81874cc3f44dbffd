/-!
# Kinds of fault

Every stage reports faults of its own, with its own details, and each of them is of one of the
kinds listed here.
-/

namespace PolicySchema

/-- What is given twice. -/
inductive Repeated where
  /-- Namespace blocks of one full name. -/
  | namespaceBlock
  | entityType
  | action
  | commonType
  /-- Attributes of one record. -/
  | attribute
  /-- Annotations of one declaration. -/
  | annotationKey
  /-- Values of one enumerated entity type. -/
  | enumValue
  /-- Entries of one `appliesTo` block. -/
  | appliesToEntry
  /-- Keys of one JSON object. -/
  | key
  deriving DecidableEq, Repr

/-- The words for what is given twice. -/
def Repeated.text : Repeated → String
  | .namespaceBlock => "namespace"
  | .entityType => "entity type"
  | .action => "action"
  | .commonType => "common type"
  | .attribute => "attribute"
  | .annotationKey => "annotation"
  | .enumValue => "enum value"
  | .appliesToEntry => "`appliesTo` entry"
  | .key => "key"

/-- The kinds of fault that any stage reports. -/
inductive Fault where
  /-- The text does not scan or does not follow the grammar. -/
  | malformedText
  | invalidEscape
  | unterminatedLiteral
  /-- The word `in` stands where an identifier is needed. -/
  | reservedIdentifier
  | duplicate (what : Repeated)
  /-- The document is no JSON, or not of the shape of a schema. -/
  | invalidJson
  | setWithoutElement
  /-- An extension type is unknown or not enabled. -/
  | unknownType
  | contextNotRecord
  | unknownParent
  | unknownReference
  /-- An entity type is declared both as enumerated and as standard. -/
  | enumConflict
  | cycle
  /-- A form of writing cannot hold the content. -/
  | unsupported
  | tooDeep
  deriving DecidableEq, Repr

/-- The words for a kind of fault. -/
def Fault.text : Fault → String
  | .malformedText => "syntax error"
  | .invalidEscape => "invalid escape"
  | .unterminatedLiteral => "unterminated string"
  | .reservedIdentifier => "reserved identifier"
  | .duplicate what => "duplicate " ++ what.text
  | .invalidJson => "invalid JSON"
  | .setWithoutElement => "set type missing element"
  | .unknownType => "unknown type"
  | .contextNotRecord => "context is not a record"
  | .unknownParent => "unknown parent"
  | .unknownReference => "unknown reference"
  | .enumConflict => "entity and enum conflict"
  | .cycle => "cycle"
  | .unsupported => "unsupported"
  | .tooDeep => "nesting too deep"

end PolicySchema
