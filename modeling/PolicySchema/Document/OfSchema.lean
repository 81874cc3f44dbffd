import PolicySchema.Schema
import PolicySchema.Document
import PolicySchema.Document.Error

/-!
# From schemas to documents

The annotations of an attribute or a common type are written on its type object, so a record that
is directly its type cannot have annotations of its own. Types that nest too deep are refused, so
that every document that is written can be read.
-/

namespace PolicySchema

namespace Document

/-- The values of `type` with a fixed meaning. A common type of such a name is written as a name
that may be that of an entity type or a common type. -/
def fixedTypes : List String :=
  ["String", "Long", "Bool", "Boolean", "Set", "Record", "Entity", "EntityOrCommon", "Extension"]

/-- Annotations as members. -/
def annotationMembers (notes : Annotations) : Members String :=
  notes.entries.map fun (key, text) ↦ (key.text, text)

/-- The name of a primitive type in documents. -/
def primitiveType : Primitive → String
  | .bool => "Boolean"
  | p => p.text

/-- The type object of a reference. -/
def refObject : TypeRef → TypeObject
  | .primitive p => .ofType (primitiveType p)
  | .entity n => { TypeObject.ofType "Entity" with name := some n.text }
  | .common n =>
    if fixedTypes.contains n.text then
      { TypeObject.ofType "EntityOrCommon" with name := some n.text }
    else .ofType n.text
  | .entityOrCommon n => { TypeObject.ofType "EntityOrCommon" with name := some n.text }
  | .extension id => { TypeObject.ofType "Extension" with name := some id.text }

mutual

/-- The type object of a type at a path, inside the given number of sets and records. -/
def typeObject (place : Place) (path : Pointer) (depth : Nat) :
    TypeExpr TypeRef → Except Error TypeObject
  | .leaf r => .ok (refObject r)
  | .set element =>
    if TypeExpr.maxDepth < depth + 1 then .error ⟨.tooDeep, path⟩
    else
      match typeObject .inner (path.child "element") (depth + 1) element with
      | .error e => .error e
      | .ok o => .ok { TypeObject.ofType "Set" with element := some o }
  | .record fields notes =>
    if TypeExpr.maxDepth < depth + 1 then .error ⟨.tooDeep, path⟩
    else if place.isDeclaring && !notes.isEmpty then .error ⟨.ownedAnnotations, path⟩
    else
      match fieldObjects (path.child "attributes") (depth + 1) fields with
      | .error e => .error e
      | .ok members => .ok
          { TypeObject.ofType "Record" with
            attributes := some members
            annotations := annotationMembers notes }

/-- The members for the attributes of a record. -/
def fieldObjects (path : Pointer) (depth : Nat) :
    Fields TypeRef → Except Error (List (String × TypeObject))
  | .nil => .ok []
  | .cons key type required notes rest =>
    match typeObject .attribute (path.child key) depth type with
    | .error e => .error e
    | .ok o =>
      match fieldObjects path depth rest with
      | .error e => .error e
      | .ok members => .ok
          ((key, { o with
            required := if required then none else some false
            annotations := annotationMembers notes }) :: members)

end

/-- A list that is left out if it is empty. -/
def nonemptyList {α β : Type} (f : α → β) (l : List α) : Option (List β) :=
  if l.isEmpty then none else some (l.map f)

/-- The type object of an optional type under a key of the object at a path. -/
def optionalTypeObject (path : Pointer) (key : String) (t : Option (TypeExpr TypeRef)) :
    Except Error (Option TypeObject) :=
  match t with
  | none => .ok none
  | some t => some <$> typeObject .inner (path.child key) 0 t

/-- The type object of a common type. -/
def commonTypeMember (path : Pointer) (id : Identifier) (d : Declaration (TypeExpr TypeRef)) :
    Except Error (String × TypeObject) := do
  let o ← typeObject .commonType (path.child id.text) 0 d.body
  pure (id.text, { o with annotations := annotationMembers d.annotations })

/-- The object of an entity type. -/
def entityTypeMember (path : Pointer) (id : Identifier) (d : Declaration EntityType) :
    Except Error (String × EntityTypeObject) := do
  let path := path.child id.text
  match d.body with
  | .enumerated first others =>
    pure (id.text, ⟨none, none, none, some (first :: others), annotationMembers d.annotations⟩)
  | .standard memberOf shape tags =>
    let shape ← optionalTypeObject path "shape" (shape.map RecordType.toType)
    let tags ← optionalTypeObject path "tags" tags
    pure (id.text,
      ⟨nonemptyList Name.text memberOf, shape, tags, none, annotationMembers d.annotations⟩)

/-- The object of what an action applies to. -/
def appliesToObject (path : Pointer) (a : Option AppliesTo) :
    Except Error (Option AppliesToObject) :=
  match a with
  | none => .ok none
  | some a => do
    let context ← optionalTypeObject path "context" a.context
    pure (some ⟨some (a.principals.map Name.text), some (a.resources.map Name.text), context⟩)

/-- The object of an action. -/
def actionMember (path : Pointer) (id : String) (d : Declaration Action) :
    Except Error (String × ActionObject) := do
  let appliesTo ← appliesToObject ((path.child id).child "appliesTo") d.body.appliesTo
  let refs := nonemptyList (fun r ↦ ⟨r.type.map Name.text, r.id⟩) d.body.memberOf
  pure (id, ⟨refs, appliesTo, annotationMembers d.annotations⟩)

/-- The object of a namespace. -/
def namespaceObject (path : Pointer) (ns : Namespace) : Except Error NamespaceObject := do
  let commonTypes ← ns.commonTypes.entries.mapM fun (id, d) ↦
    commonTypeMember (path.child "commonTypes") id d
  let entityTypes ← ns.entityTypes.entries.mapM fun (id, d) ↦
    entityTypeMember (path.child "entityTypes") id d
  let actions ← ns.actions.entries.mapM fun (id, d) ↦ actionMember (path.child "actions") id d
  pure ⟨annotationMembers ns.annotations, commonTypes, entityTypes, actions⟩

/-- The key of a namespace in documents. -/
def namespaceKey (name : Option Name) : String := (name.map Name.text).getD ""

/-- The document of a schema, with its namespaces in the order of their keys. -/
def ofSchema (s : Schema) : Except Error Document := do
  let entries ← s.namespaces.entries.mapM fun (name, ns) ↦ do
    let o ← namespaceObject (Pointer.root.child (namespaceKey name)) ns
    pure (namespaceKey name, o)
  pure (Table.ofList entries).entries

end Document

end PolicySchema
