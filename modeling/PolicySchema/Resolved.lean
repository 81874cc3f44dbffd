import PolicySchema.Schema

/-!
# Resolved schemas

In a resolved schema every name is looked up: types hold atoms only, and each entity type and action
lists what it is a member of and what its members are, directly or through others.
-/

namespace PolicySchema

/-- A type with nothing left to look up. -/
abbrev ResolvedType := TypeExpr Atom

/-- A record type with nothing left to look up. -/
abbrev ResolvedRecord := RecordType Atom

/-- A resolved entity type. -/
structure ResolvedEntityType where
  /-- The entity types that it is declared to be a member of. -/
  memberOf : KeySet Name
  /-- The entity types that are members of it, directly or through others. -/
  descendants : KeySet Name
  attributes : ResolvedRecord
  tags : Option ResolvedType
  /-- The entities of an enumerated entity type, in the order of their declaration. -/
  choices : Option (List Uid)
  annotations : Annotations
  deriving DecidableEq

/-- What a resolved action applies to. -/
structure ResolvedAppliesTo where
  principals : KeySet Name
  resources : KeySet Name
  /-- The context, which is empty if none is declared. -/
  context : ResolvedRecord
  deriving DecidableEq

/-- A resolved action. -/
structure ResolvedAction where
  memberOf : KeySet Uid
  descendants : KeySet Uid
  appliesTo : Option ResolvedAppliesTo
  annotations : Annotations
  deriving DecidableEq

/-- A resolved schema. -/
structure ResolvedSchema where
  entityTypes : Table Name ResolvedEntityType
  actions : Table Uid ResolvedAction
  /-- The annotations of each namespace. -/
  namespaces : Table (Option Name) Annotations
  deriving DecidableEq

namespace ResolvedSchema

/-- The entity types of actions, in ascending order. -/
def actionEntityTypes (s : ResolvedSchema) : List Name :=
  (KeySet.ofList (s.actions.keys.map Uid.type)).toList

/-- The name is that of a declared entity type or the entity type of an action. -/
def isKnownEntityType (s : ResolvedSchema) (n : Name) : Bool :=
  s.entityTypes.contains n || s.actions.keys.any (·.type = n)

end ResolvedSchema

end PolicySchema
