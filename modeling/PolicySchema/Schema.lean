import PolicySchema.Source
import PolicySchema.TypeExpr
import PolicySchema.Uid

/-!
# Schemas

A schema holds, for each namespace, declarations of common types, entity types and actions. The
names of declarations are bare, and the names that they refer to may be bare or qualified.
Locations do not count in the comparison of schemas (`Schema.agrees`).
-/

namespace PolicySchema

/-- A declared thing with its annotations, and the place of its name if it was read from text. -/
structure Declaration (α : Type) where
  body : α
  annotations : Annotations
  location : Option Location
  deriving DecidableEq

namespace Declaration

variable {α : Type}

/-- The declaration without its place. -/
def placeless (d : Declaration α) : Declaration α := { d with location := none }

end Declaration

/-- An entity type is either standard or enumerated. -/
inductive EntityType where
  /-- Entities with parents, attributes and tags. A missing shape is not an empty one. -/
  | standard (memberOf : List Name) (shape : Option (RecordType TypeRef))
      (tags : Option (TypeExpr TypeRef))
  /-- Only the entities of the listed texts, of which there is at least one. -/
  | enumerated (first : String) (others : List String)
  deriving DecidableEq

/-- The entity type is enumerated. -/
def EntityType.isEnumerated : EntityType → Bool
  | standard .. => false
  | enumerated .. => true

/-- A reference to an action. Without a type it means the actions of the enclosing namespace. -/
structure ActionRef where
  type : Option Name
  id : String
  deriving DecidableEq

/-- What an action applies to. -/
structure AppliesTo where
  principals : List Name
  resources : List Name
  context : Option (TypeExpr TypeRef)
  deriving DecidableEq

/-- An action. One that applies to nothing only groups other actions. -/
structure Action where
  memberOf : List ActionRef
  appliesTo : Option AppliesTo
  deriving DecidableEq

/-- The declarations of a namespace. -/
structure Namespace where
  annotations : Annotations
  commonTypes : Table Identifier (Declaration (TypeExpr TypeRef))
  entityTypes : Table Identifier (Declaration EntityType)
  actions : Table String (Declaration Action)
  deriving DecidableEq

namespace Namespace

/-- The namespace that declares nothing. -/
def empty : Namespace := ⟨∅, ∅, ∅, ∅⟩

/-- The empty namespace stands for any. -/
instance : Inhabited Namespace := ⟨empty⟩

/-- The namespace declares something. -/
def hasDeclarations (ns : Namespace) : Bool :=
  !(ns.entityTypes.isEmpty && ns.actions.isEmpty && ns.commonTypes.isEmpty)

/-- The namespace declares nothing and has no annotations. -/
def isEmpty (ns : Namespace) : Bool := ns.annotations.isEmpty && !ns.hasDeclarations

/-- The namespace without places. -/
def placeless (ns : Namespace) : Namespace :=
  { ns with
    commonTypes := ns.commonTypes.map Declaration.placeless
    entityTypes := ns.entityTypes.map Declaration.placeless
    actions := ns.actions.map Declaration.placeless }

end Namespace

/-- A schema: namespaces by their full names, where `none` is the anonymous namespace. -/
structure Schema where
  namespaces : Table (Option Name) Namespace
  deriving DecidableEq

namespace Schema

/-- The schema without namespaces. -/
def empty : Schema := ⟨∅⟩

/-- The empty schema stands for any. -/
instance : Inhabited Schema := ⟨empty⟩

/-- The schema has no namespaces. -/
def isEmpty (s : Schema) : Bool := s.namespaces.isEmpty

/-- The declarations of a namespace. -/
def namespace? (s : Schema) (ns : Option Name) : Option Namespace := s.namespaces.find? ns

/-- The schema with a namespace changed, which is empty before if it is missing. -/
def update (s : Schema) (ns : Option Name) (f : Namespace → Namespace) : Schema :=
  ⟨s.namespaces.insert ns (f ((s.namespace? ns).getD .empty))⟩

/-- The schema with an empty namespace added if it is missing. -/
def ensure (s : Schema) (ns : Option Name) : Schema := s.update ns id

/-- Every entity type with its namespace and name. -/
def entityTypes (s : Schema) : List (Option Name × Identifier × Declaration EntityType) :=
  s.namespaces.entries.flatMap fun (ns, d) ↦ d.entityTypes.entries.map fun (id, e) ↦ (ns, id, e)

/-- Every action with its namespace and name. -/
def actions (s : Schema) : List (Option Name × String × Declaration Action) :=
  s.namespaces.entries.flatMap fun (ns, d) ↦ d.actions.entries.map fun (id, a) ↦ (ns, id, a)

/-- The schema without places. -/
def placeless (s : Schema) : Schema := ⟨s.namespaces.map Namespace.placeless⟩

/-- The schemas are equal but for places. -/
def agrees (s t : Schema) : Bool := s.placeless = t.placeless

end Schema

end PolicySchema
