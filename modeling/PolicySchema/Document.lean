import PolicySchema.Json

/-!
# Schema documents

The JSON form of a schema as plain data, before any name in it is checked. Objects with chosen keys
keep their members in the order in which they are written, repeated keys included. Which fields a
type object may have depends on its `type`, so all others are optional here.
-/

namespace PolicySchema

/-- The first text that occurs for the second time, after texts already seen. -/
def firstRepeated? (seen : List String) : List String → Option String
  | [] => none
  | text :: rest => if seen.contains text then some text else firstRepeated? (text :: seen) rest

/-- The members of an object with chosen keys, as written. -/
abbrev Members (α : Type) := List (String × α)

/-- Where a type object stands in a document. -/
inductive Place where
  /-- The value of an attribute, which may be optional. -/
  | attribute
  /-- The value of a common type. -/
  | commonType
  /-- Any other place. -/
  | inner
  deriving DecidableEq, Repr

/-- The annotations of a type object at the place are those of what it is the value of. -/
def Place.isDeclaring : Place → Bool
  | .attribute | .commonType => true
  | .inner => false

/-- A type object. -/
structure TypeObject where
  type : String
  element : Option TypeObject
  attributes : Option (List (String × TypeObject))
  name : Option String
  required : Option Bool
  annotations : Members String

/-- The type object with only a `type`. -/
def TypeObject.ofType (type : String) : TypeObject := ⟨type, none, none, none, none, []⟩

/-- The object of an entity type. -/
structure EntityTypeObject where
  memberOfTypes : Option (List String)
  shape : Option TypeObject
  tags : Option TypeObject
  values : Option (List String)
  annotations : Members String

/-- The object of a reference to an action. -/
structure ActionRefObject where
  type : Option String
  id : String

/-- The object of what an action applies to. -/
structure AppliesToObject where
  principalTypes : Option (List String)
  resourceTypes : Option (List String)
  context : Option TypeObject

/-- The object of an action. -/
structure ActionObject where
  memberOf : Option (List ActionRefObject)
  appliesTo : Option AppliesToObject
  annotations : Members String

/-- The object of a namespace. -/
structure NamespaceObject where
  annotations : Members String
  commonTypes : Members TypeObject
  entityTypes : Members EntityTypeObject
  actions : Members ActionObject

/-- A document: namespaces by their full names, where the empty text is the anonymous namespace. -/
abbrev Document := Members NamespaceObject

end PolicySchema
