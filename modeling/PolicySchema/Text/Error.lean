import PolicySchema.Extension
import PolicySchema.Fault
import PolicySchema.TypeExpr
import PolicySchema.Unicode.Visible
import PolicySchema.Text.Token

/-!
# Errors in the text form

Reading a text stops at the first error, which has a cause and a place.
-/

namespace PolicySchema.Text

/-- What the grammar allows at a place. -/
inductive Expected where
  | kind (k : TokenKind)
  | keyword (word : String)
  | declaration
  | typeExpr
  | attributeName
  | actionName
  | actionReference
  | appliesToEntry
  deriving DecidableEq, Repr

/-- The words for what the grammar allows. -/
def Expected.text : Expected → String
  | .kind k => k.text
  | .keyword word => "`" ++ word ++ "`"
  | .declaration => "`namespace`, `entity`, `action`, `type` or `@`"
  | .typeExpr => "type"
  | .attributeName => "attribute name"
  | .actionName => "action name"
  | .actionReference => "`::` followed by an action name string"
  | .appliesToEntry => "`principal`, `resource` or `context`"

/-- Why a text cannot be read. -/
inductive Cause where
  | notUtf8
  /-- No token starts with the character. -/
  | unexpectedCharacter (c : Char)
  /-- The escape sequence, as written, stands for nothing. -/
  | invalidEscape (written : String)
  | unterminatedLiteral
  | unterminatedComment
  | unexpected (found : Token) (expected : Expected)
  /-- The word `in` stands where an identifier is needed. -/
  | reserved
  | duplicate (what : Repeated) (name : String)
  /-- The entity type is declared both as enumerated and as standard. -/
  | enumConflict (name : String)
  | unknownExtension (name : String)
  | tooDeep
  /-- The stack is exhausted by namespace blocks inside of others. -/
  | namespacesTooDeep
  deriving DecidableEq, Repr

namespace Cause

/-- The message for a cause. -/
def message : Cause → String
  | notUtf8 => "input is not valid UTF-8"
  | unexpectedCharacter c => "unexpected character `" ++ Unicode.shown c ++ "`"
  | invalidEscape written => "invalid escape `" ++ written ++ "` in string literal"
  | unterminatedLiteral => "unterminated string literal"
  | unterminatedComment => "unterminated block comment"
  | unexpected found expected =>
    "unexpected " ++ found.description ++ ", expected " ++ expected.text
  | reserved => "`in` is a reserved identifier and cannot be used as a name"
  | duplicate what name => "duplicate " ++ what.text ++ " `" ++ name ++ "`"
  | enumConflict name =>
    "`" ++ name ++ "` is declared both as an enumerated and as a standard entity type"
  | unknownExtension name => "unknown extension type `" ++ name ++ "`"
  | tooDeep => "types are nested more than " ++ toString TypeExpr.maxDepth ++ " deep"
  | namespacesTooDeep => "namespace blocks are nested too deeply"

/-- The kind of fault that a cause is. -/
def fault : Cause → Fault
  | notUtf8 | unexpectedCharacter _ | unterminatedComment | unexpected .. => .malformedText
  | invalidEscape _ => .invalidEscape
  | unterminatedLiteral => .unterminatedLiteral
  | reserved => .reservedIdentifier
  | duplicate what _ => .duplicate what
  | enumConflict _ => .enumConflict
  | unknownExtension _ => .unknownType
  | tooDeep | namespacesTooDeep => .tooDeep

/-- The advice given with a cause. -/
def advice? : Cause → Option String
  | invalidEscape _ => some
      "supported escapes are `\\n`, `\\r`, `\\t`, `\\\\`, `\\'`, `\\\"`, `\\0` and `\\xHH`"
  | reserved => some "write `\"in\"` to use it as an action name or attribute"
  | unknownExtension _ => some knownExtensionsAdvice
  | _ => none

end Cause

/-- A cause at a stretch of the text being read. -/
structure Failure where
  cause : Cause
  span : Span
  deriving DecidableEq, Repr

/-- Why and where a source cannot be read. -/
structure Error where
  cause : Cause
  location : Location
  deriving DecidableEq, Repr

namespace Error

/-- The place, then the cause. -/
def message (e : Error) : String := e.location.text ++ ": " ++ e.cause.message

end Error

/-- A failure as an error of a source. -/
def Failure.within (f : Failure) (source : Source) : Error := ⟨f.cause, ⟨source, f.span⟩⟩

end PolicySchema.Text
