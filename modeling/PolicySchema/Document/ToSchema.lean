import PolicySchema.Schema
import PolicySchema.Document.OfJson
import PolicySchema.Document.Error

/-!
# From documents to schemas

Names are checked, objects with chosen keys may not repeat a key, and each type object has to have
the fields that its `type` asks for and no others. Members are taken in key order, and the first
error ends the reading. Annotations on a type object belong to the attribute or common type that it
declares, if it does, and otherwise to the record that it is.
-/

namespace PolicySchema

namespace Document

/-- An error at a path. -/
def failAt {α : Type} (path : Pointer) (cause : Cause) : Except Error α := .error ⟨cause, path⟩

/-- The identifier that a text at a path is. -/
def identifierAt (path : Pointer) (text : String) : Except Error Identifier :=
  match Identifier.parse text with
  | .ok id => .ok id
  | .error e => failAt path (.invalidName text e)

/-- The name that a text at a path is. -/
def nameAt (path : Pointer) (text : String) : Except Error Name :=
  match Name.parse text with
  | .ok n => .ok n
  | .error e => failAt path (.invalidName text e)

/-- The items of a list at a path as read one by one, each under its index, which starts at the
given one. -/
def itemsAt {α β : Type} (path : Pointer) (read : Pointer → α → Except Error β) :
    Nat → List α → Except Error (List β)
  | _, [] => .ok []
  | i, a :: rest => do
    let b ← read (path.child (toString i)) a
    let others ← itemsAt path read (i + 1) rest
    pure (b :: others)

/-- The members of an object at a path in key order, if no key is repeated. -/
def distinctMembers {α : Type} (path : Pointer) (members : Members α) :
    Except Error (List (String × α)) :=
  match firstRepeated? [] (members.map Prod.fst) with
  | some key => failAt path (.duplicateKey key)
  | none => .ok (Table.ofList members).entries

/-- The members of an object at a path as read one by one in key order, each under its key. -/
def membersAt {α β : Type} (path : Pointer) (members : Members α)
    (read : Pointer → String → α → Except Error β) : Except Error (List β) := do
  let entries ← distinctMembers path members
  entries.mapM fun (key, value) ↦ read (path.child key) key value

/-- The names in a list that may be missing. -/
def namesAt (path : Pointer) (names : Option (List String)) : Except Error (List Name) :=
  itemsAt path nameAt 0 (names.getD [])

/-- The annotations of the object at a path. -/
def annotationsAt (path : Pointer) (members : Members String) : Except Error Annotations := do
  let entries ← membersAt (path.child "annotations") members fun path key value ↦ do
    let id ← identifierAt path key
    pure (id, value)
  pure (Table.ofList entries)

/-- The optional fields that a type object has, in the order in which they are checked. -/
def givenFields (o : TypeObject) : List String :=
  (if o.element.isSome then ["element"] else []) ++
    (if o.attributes.isSome then ["attributes"] else []) ++
    (if o.name.isSome then ["name"] else [])

/-- The optional fields that a type object may have. -/
def fieldsFor (type : String) : List String :=
  if type = "Set" then ["element"]
  else if type = "Record" then ["attributes"]
  else if type = "Entity" || type = "EntityOrCommon" || type = "Extension" then ["name"]
  else []

/-- Checks that a type object may stand where it does with the fields that it has. -/
def vetObject (place : Place) (path : Pointer) (o : TypeObject) : Except Error Unit :=
  if o.required.isSome && place != .attribute then failAt path .misplacedRequired
  else
    match (givenFields o).find? fun field ↦ !(fieldsFor o.type).contains field with
    | some field => failAt path (.unexpectedField o.type field)
    | none =>
      if !o.annotations.isEmpty && !place.isDeclaring && o.type != "Record" then
        failAt path .misplacedAnnotations
      else .ok ()

/-- How a type object that stands at a place and a path is read. -/
abbrev TypeReader := Place → Pointer → TypeObject → Except Error (TypeExpr TypeRef)

/-- The attribute under a key. Its type is read by `inner`. -/
def attributeAt (inner : TypeReader) (path : Pointer) (key : String) (o : TypeObject) :
    Except Error (String × Attribute TypeRef) := do
  let annotations ← annotationsAt path o.annotations
  let type ← inner .attribute path o
  pure (key, ⟨type, o.required.getD true, annotations⟩)

/-- The record that a type object is. The types of its attributes are read by `inner`. -/
def recordAt (inner : TypeReader) (place : Place) (path : Pointer) (o : TypeObject) :
    Except Error (TypeExpr TypeRef) :=
  match o.attributes with
  | none => failAt path (.missingField o.type "attributes")
  | some members => do
    let fields ← membersAt (path.child "attributes") members (attributeAt inner)
    let annotations ← if place.isDeclaring then pure ∅ else annotationsAt path o.annotations
    pure (.record (Fields.ofTable (Table.ofList fields)) annotations)

/-- The set that a type object is. The type of its elements is read by `inner`. -/
def setAt (inner : TypeReader) (path : Pointer) (o : TypeObject) :
    Except Error (TypeExpr TypeRef) :=
  match o.element with
  | none => failAt path .setWithoutElement
  | some element => do
    let type ← inner .inner (path.child "element") element
    pure (.set type)

/-- The text of the field `name`, which a type object must have. -/
def nameFieldAt (path : Pointer) (o : TypeObject) : Except Error String :=
  match o.name with
  | none => failAt path (.missingField o.type "name")
  | some name => .ok name

/-- The reference that a type object is, if it is neither a set nor a record. -/
def refAt (path : Pointer) (o : TypeObject) : Except Error TypeRef := do
  if o.type = "Entity" then
    let name ← nameFieldAt path o
    .entity <$> nameAt (path.child "name") name
  else if o.type = "EntityOrCommon" then
    let name ← nameFieldAt path o
    .entityOrCommon <$> nameAt (path.child "name") name
  else if o.type = "Extension" then
    let name ← nameFieldAt path o
    if isKnownExtension name then .extension <$> identifierAt (path.child "name") name
    else failAt (path.child "name") (.unknownExtension name)
  else
    match Primitive.ofName? o.type with
    | some p => pure (.primitive p)
    | none => .common <$> nameAt (path.child "type") o.type

/-- The type that a type object is. The types inside a set or a record are read by `inner?`, and
without it a set or a record is too deep. -/
def levelAt (inner? : Option TypeReader) : TypeReader := fun place path o ↦ do
  vetObject place path o
  if o.type = "Set" || o.type = "Record" then
    match inner? with
    | none => failAt path .tooDeep
    | some inner =>
      if o.type = "Set" then setAt inner path o else recordAt inner place path o
  else .leaf <$> refAt path o

/-- The type that a type object is, if at most the given number of sets and records enclose one
another in it. -/
def typeUpTo : Nat → TypeReader
  | 0 => levelAt none
  | room + 1 => levelAt (some (typeUpTo room))

/-- The type that a type object is, if it nests no deeper than types may. -/
def typeAt : TypeReader := typeUpTo TypeExpr.maxDepth

/-- The optional type under a key of the object at a path. -/
def optionalTypeAt (path : Pointer) (key : String) (o : Option TypeObject) :
    Except Error (Option (TypeExpr TypeRef)) :=
  match o with
  | none => .ok none
  | some o => some <$> typeAt .inner (path.child key) o

/-- The shape of the entity type at a path, which must be a record. -/
def shapeAt (path : Pointer) (o : Option TypeObject) :
    Except Error (Option (RecordType TypeRef)) := do
  match ← optionalTypeAt path "shape" o with
  | none => pure none
  | some type =>
    match type.record? with
    | some r => pure (some r)
    | none => failAt (path.child "shape") (.notRecord "shape")

/-- The first field that an enumerated entity type may not have. -/
def conflictingField? (o : EntityTypeObject) : Option String :=
  if o.shape.isSome then some "shape"
  else if o.tags.isSome then some "tags"
  else if o.memberOfTypes.isSome then some "memberOfTypes"
  else none

/-- The enumerated entity type with the given values. -/
def enumAt (path : Pointer) (values : List String) : Except Error EntityType :=
  match firstRepeated? [] values with
  | some value => failAt path (.duplicateEnumValue value)
  | none =>
    match values with
    | [] => failAt path .emptyEnum
    | first :: others => .ok (.enumerated first others)

/-- What the entity type at a path is. -/
def entityBodyAt (path : Pointer) (o : EntityTypeObject) : Except Error EntityType :=
  match o.values with
  | some values =>
    match conflictingField? o with
    | some field => failAt path (.enumWithField field)
    | none => enumAt (path.child "enum") values
  | none => do
    let memberOf ← namesAt (path.child "memberOfTypes") o.memberOfTypes
    let shape ← shapeAt path o.shape
    let tags ← optionalTypeAt path "tags" o.tags
    pure (.standard memberOf shape tags)

/-- The declaration of an entity type under its key. -/
def entityTypeAt (path : Pointer) (key : String) (o : EntityTypeObject) :
    Except Error (Identifier × Declaration EntityType) := do
  let id ← identifierAt path key
  let annotations ← annotationsAt path o.annotations
  let body ← entityBodyAt path o
  pure (id, ⟨body, annotations, none⟩)

/-- The reference to an action at a path. -/
def actionRefAt (path : Pointer) (o : ActionRefObject) : Except Error ActionRef :=
  match o.type with
  | none => .ok ⟨none, o.id⟩
  | some type => do
    let name ← nameAt (path.child "type") type
    pure ⟨some name, o.id⟩

/-- What an action applies to, from the object at a path. -/
def appliesToAt (path : Pointer) (o : Option AppliesToObject) :
    Except Error (Option AppliesTo) :=
  match o with
  | none => .ok none
  | some o => do
    let principals ← namesAt (path.child "principalTypes") o.principalTypes
    let resources ← namesAt (path.child "resourceTypes") o.resourceTypes
    let context ← optionalTypeAt path "context" o.context
    pure (some ⟨principals, resources, context⟩)

/-- The declaration of an action under its key. -/
def actionAt (path : Pointer) (key : String) (o : ActionObject) :
    Except Error (String × Declaration Action) := do
  let memberOf ← itemsAt (path.child "memberOf") actionRefAt 0 (o.memberOf.getD [])
  let appliesTo ← appliesToAt (path.child "appliesTo") o.appliesTo
  let annotations ← annotationsAt path o.annotations
  pure (key, ⟨⟨memberOf, appliesTo⟩, annotations, none⟩)

/-- The declaration of a common type under its key. -/
def commonTypeAt (path : Pointer) (key : String) (o : TypeObject) :
    Except Error (Identifier × Declaration (TypeExpr TypeRef)) := do
  let id ← identifierAt path key
  let annotations ← annotationsAt path o.annotations
  let type ← typeAt .commonType path o
  pure (id, ⟨type, annotations, none⟩)

/-- The declarations of the namespace at a path. -/
def namespaceAt (path : Pointer) (o : NamespaceObject) : Except Error Namespace := do
  let annotations ← annotationsAt path o.annotations
  let commonTypes ← membersAt (path.child "commonTypes") o.commonTypes commonTypeAt
  let entityTypes ← membersAt (path.child "entityTypes") o.entityTypes entityTypeAt
  let actions ← membersAt (path.child "actions") o.actions actionAt
  pure ⟨annotations, Table.ofList commonTypes, Table.ofList entityTypes, Table.ofList actions⟩

/-- The namespace that a key of a document stands for. -/
def namespaceNameAt (path : Pointer) (key : String) : Except Error (Option Name) :=
  if key.isEmpty then .ok none else some <$> nameAt path key

/-- A namespace under its key. -/
def entryAt (path : Pointer) (key : String) (o : NamespaceObject) :
    Except Error (Option Name × Namespace) := do
  let name ← namespaceNameAt path key
  let ns ← namespaceAt path o
  pure (name, ns)

/-- The schema that a document holds. -/
def toSchema (d : Document) : Except Error Schema := do
  let entries ← membersAt .root d entryAt
  pure ⟨Table.ofList entries⟩

end Document

end PolicySchema
