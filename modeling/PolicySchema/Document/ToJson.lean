import PolicySchema.Document

/-!
# From documents to JSON

Fixed fields are written in the order of their names, and one that was not given is left out.
-/

namespace PolicySchema

namespace Json

/-- A member, if there is a value for it. -/
def memberOf? (key : String) (value? : Option Json) : List (String × Json) :=
  match value? with
  | some value => [(key, value)]
  | none => []

/-- An array of strings. -/
def strings (texts : List String) : Json := array (texts.map string)

/-- An object of strings. -/
def stringMembers (members : Members String) : Json :=
  object (members.map fun (key, text) ↦ (key, string text))

/-- The member for annotations, which is left out if there are none. -/
def annotationsMember (annotations : Members String) : List (String × Json) :=
  if annotations.isEmpty then [] else [("annotations", stringMembers annotations)]

end Json

open Json

mutual

/-- The JSON form of a type object. -/
def TypeObject.toJson : TypeObject → Json
  | ⟨type, none, attributes, name, required, annotations⟩ =>
    object (annotationsMember annotations ++ attributesMember attributes ++
      memberOf? "name" (name.map string) ++ memberOf? "required" (required.map bool) ++
      [("type", string type)])
  | ⟨type, some element, attributes, name, required, annotations⟩ =>
    object (annotationsMember annotations ++ attributesMember attributes ++
      [("element", element.toJson)] ++ memberOf? "name" (name.map string) ++
      memberOf? "required" (required.map bool) ++ [("type", string type)])

/-- The member for the attributes of a type object. -/
def attributesMember : Option (List (String × TypeObject)) → List (String × Json)
  | none => []
  | some attributes => [("attributes", object (typeMembers attributes))]

/-- The JSON forms of type objects under their keys. -/
def typeMembers : List (String × TypeObject) → List (String × Json)
  | [] => []
  | (key, type) :: rest => (key, type.toJson) :: typeMembers rest

end

/-- The JSON form of the object of an entity type. -/
def EntityTypeObject.toJson (o : EntityTypeObject) : Json :=
  object (annotationsMember o.annotations ++ memberOf? "enum" (o.values.map strings) ++
    memberOf? "memberOfTypes" (o.memberOfTypes.map strings) ++
    memberOf? "shape" (o.shape.map TypeObject.toJson) ++
    memberOf? "tags" (o.tags.map TypeObject.toJson))

/-- The JSON form of the object of a reference to an action. -/
def ActionRefObject.toJson (o : ActionRefObject) : Json :=
  object (("id", string o.id) :: memberOf? "type" (o.type.map string))

/-- The JSON form of the object of what an action applies to. -/
def AppliesToObject.toJson (o : AppliesToObject) : Json :=
  object (memberOf? "context" (o.context.map TypeObject.toJson) ++
    memberOf? "principalTypes" (o.principalTypes.map strings) ++
    memberOf? "resourceTypes" (o.resourceTypes.map strings))

/-- The JSON form of the object of an action. -/
def ActionObject.toJson (o : ActionObject) : Json :=
  object (annotationsMember o.annotations ++
    memberOf? "appliesTo" (o.appliesTo.map AppliesToObject.toJson) ++
    memberOf? "memberOf" (o.memberOf.map fun refs ↦ array (refs.map ActionRefObject.toJson)))

/-- The JSON form of the object of a namespace. -/
def NamespaceObject.toJson (o : NamespaceObject) : Json :=
  object ([("actions", object (o.actions.map fun (key, a) ↦ (key, a.toJson)))] ++
    annotationsMember o.annotations ++
    (if o.commonTypes.isEmpty then [] else [("commonTypes", object (typeMembers o.commonTypes))]) ++
    [("entityTypes", object (o.entityTypes.map fun (key, e) ↦ (key, e.toJson)))])

/-- The JSON form of a document. -/
def Document.toJson (d : Document) : Json :=
  object (d.map fun (key, ns) ↦ (key, ns.toJson))

end PolicySchema
