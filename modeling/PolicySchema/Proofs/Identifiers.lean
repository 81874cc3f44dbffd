import PolicySchema.Proofs.Members

/-!
# The identifiers in a schema

All identifiers of a schema, wherever they stand in it: the names of declarations, the components of
the names of namespaces and of references, the keys of annotations, and the names of extension
types. The identifiers of a type are listed along the type.
-/

namespace PolicySchema

open Text (Statement entityTypeExprs actionTypeExprs)

/-- The identifiers in a reference. -/
def TypeRef.identifiers : TypeRef → List Identifier
  | .primitive _ => []
  | .entity n | .common n | .entityOrCommon n => n.components
  | .extension id => [id]

mutual

/-- The identifiers in a type: those of its references, and the keys of annotations. -/
def TypeExpr.identifiers : TypeExpr TypeRef → List Identifier
  | .leaf r => r.identifiers
  | .set element => element.identifiers
  | .record fields notes => notes.keys ++ fields.identifiers

/-- The identifiers in the attributes of a record. Keys of attributes are texts. -/
def Fields.identifiers : Fields TypeRef → List Identifier
  | .nil => []
  | .cons _ type _ notes rest => notes.keys ++ type.identifiers ++ rest.identifiers

end

/-- The identifiers in an entity type. -/
def EntityType.identifiers (e : EntityType) : List Identifier :=
  e.memberOf.flatMap Name.components ++ (entityTypeExprs e).flatMap TypeExpr.identifiers

/-- The names of the types in a block that says what an action applies to. -/
def AppliesTo.names (block : AppliesTo) : List Name := block.principals ++ block.resources

/-- The names in an action, of the types of its parents and of what it applies to. -/
def Action.names (a : Action) : List Name :=
  a.memberOf.filterMap ActionRef.type ++ a.appliesTo.toList.flatMap AppliesTo.names

/-- The identifiers in an action. Names of actions are texts. -/
def Action.identifiers (a : Action) : List Identifier :=
  a.names.flatMap Name.components ++ (actionTypeExprs a).flatMap TypeExpr.identifiers

/-- The identifiers in a statement, other than those of the namespace that it is about. -/
def Text.Statement.identifiers : Statement → List Identifier
  | .block _ notes => notes.keys
  | .commonType _ key t notes => key :: notes.keys ++ t.identifiers
  | .entityType _ key e notes => key :: notes.keys ++ e.identifiers
  | .action _ _ a notes => notes.keys ++ a.identifiers

/-- The identifiers in a declaration of a namespace. -/
def Namespace.Member.identifiers : Member → List Identifier
  | .commonType id d => id :: d.annotations.keys ++ d.body.identifiers
  | .entityType id d => id :: d.annotations.keys ++ d.body.identifiers
  | .action _ d => d.annotations.keys ++ d.body.identifiers

/-- The identifiers in a namespace, other than those of its name. -/
def Namespace.identifiers (ns : Namespace) : List Identifier :=
  ns.annotations.keys ++ ns.members.flatMap Member.identifiers

/-- The identifiers in a schema. -/
def Schema.identifiers (s : Schema) : List Identifier :=
  s.namespaces.entries.flatMap fun (name, ns) ↦
    name.toList.flatMap Name.components ++ ns.identifiers

/-- The identifiers in a declaration are those of what it states. -/
theorem Namespace.Member.identifiers_statement (name : Option Name) (m : Member) :
    (m.statement name).identifiers = m.identifiers := by
  cases m <;> rfl

end PolicySchema
