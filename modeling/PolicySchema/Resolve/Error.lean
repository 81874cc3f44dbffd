import PolicySchema.Extension
import PolicySchema.Fault
import PolicySchema.Hierarchy
import PolicySchema.Schema

/-!
# Problems found while resolving

Resolving does not stop at a problem, and reports all of them in the order in which they are found,
each with the place of the declaration that it is found in.
-/

namespace PolicySchema.Resolve

/-- What a problem is. The text `origin` describes the declaration that a reference stands in. -/
inductive Cause where
  | duplicateEntityType (name : Name)
  /-- The entity type is declared both as enumerated and as standard. -/
  | enumConflict (name : Name)
  | duplicateAction (uid : Uid)
  | duplicateCommonType (name : Name)
  | unknownEntityParent (entity parent : Name)
  | unknownActionParent (action parent : Uid)
  | unknownEntityType (name : Name) (origin : String)
  | unknownCommonType (name : Name) (origin : String)
  | unknownExtension (name : String) (origin : String)
  | disabledExtension (name : String) (origin : String)
  | tooDeep (origin : String)
  /-- The stack is exhausted where the body of the common type would be walked. -/
  | chainTooLong (name : Name)
  | contextNotRecord (action : Uid)
  | entityTypeCycle (names : List Name)
  | actionCycle (uids : List Uid)
  deriving DecidableEq

namespace Cause

/-- The message for a problem. -/
def message : Cause → String
  | duplicateEntityType name => "entity type `" ++ name.text ++ "` is declared more than once"
  | enumConflict name =>
    "`" ++ name.text ++ "` is declared both as an enumerated and as a standard entity type"
  | duplicateAction uid => "action `" ++ uid.text ++ "` is declared more than once"
  | duplicateCommonType name => "common type `" ++ name.text ++ "` is declared more than once"
  | unknownEntityParent entity parent =>
    "entity type `" ++ entity.text ++ "` is a member of undeclared entity type `" ++ parent.text ++
      "`"
  | unknownActionParent action parent =>
    "action `" ++ action.text ++ "` is a member of undeclared action `" ++ parent.text ++ "`"
  | unknownEntityType name origin =>
    "undeclared entity type `" ++ name.text ++ "` referenced in " ++ origin
  | unknownCommonType name origin =>
    "undeclared common type `" ++ name.text ++ "` referenced in " ++ origin
  | unknownExtension name origin =>
    "unknown extension type `" ++ name ++ "` referenced in " ++ origin
  | disabledExtension name origin =>
    "extension type `" ++ name ++ "` referenced in " ++ origin ++ " is not enabled"
  | tooDeep origin =>
    "types in " ++ origin ++ " are nested more than " ++ toString TypeExpr.maxDepth ++
      " deep once common types are inlined"
  | chainTooLong name =>
    "common type `" ++ name.text ++
      "` starts a chain of common type references that is too long to inline"
  | contextNotRecord action => "context of action `" ++ action.text ++ "` is not a record type"
  | entityTypeCycle names =>
    "entity type hierarchy has a cycle through " ++ backquoted (names.map Name.text)
  | actionCycle uids => "action hierarchy has a cycle through " ++ backquoted (uids.map Uid.text)

/-- The kind of fault that a problem is. -/
def fault : Cause → Fault
  | duplicateEntityType _ => .duplicate .entityType
  | enumConflict _ => .enumConflict
  | duplicateAction _ => .duplicate .action
  | duplicateCommonType _ => .duplicate .commonType
  | unknownEntityParent .. | unknownActionParent .. => .unknownParent
  | unknownEntityType .. | unknownCommonType .. => .unknownReference
  | unknownExtension .. | disabledExtension .. => .unknownType
  | tooDeep _ | chainTooLong _ => .tooDeep
  | contextNotRecord _ => .contextNotRecord
  | entityTypeCycle _ | actionCycle _ => .cycle

/-- The advice given with a problem. -/
def advice? : Cause → Option String
  | unknownExtension .. => some knownExtensionsAdvice
  | disabledExtension name _ => some <|
    "enable the cargo feature that provides `" ++ name ++
      "`, or include it in the `Extensions` passed to the resolver"
  | contextNotRecord _ =>
    some "declare the context as a record type, or as a common type that is a record"
  | chainTooLong _ => some "shorten the chain by referring to the type at its end directly"
  | unknownEntityType name _ =>
    if name.isBare then
      some
        "bare names are looked up in the anonymous namespace, then in the enclosing namespace"
    else none
  | _ => none

end Cause

/-- A problem with the place of the declaration that it was found in, if that is known. -/
structure Problem where
  cause : Cause
  location : Option Location
  deriving DecidableEq

end PolicySchema.Resolve
