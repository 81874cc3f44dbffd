import PolicySchema.Resolve.Error

/-!
# The declarations of several schemas

Before names can be looked up, the declarations of all schemas are collected under their full names.
A name declared twice is reported and keeps its first declaration.
-/

namespace PolicySchema.Resolve

/-- A declaration with the namespace that it is written in. -/
structure Placed (α : Type) where
  declaration : Declaration α
  ns : Option Name
  deriving DecidableEq

/-- All declarations under their full names. -/
structure Index where
  commonTypes : Table Name (Placed (TypeExpr TypeRef))
  entityTypes : Table Name (Placed EntityType)
  actions : Table Uid (Placed Action)
  /-- The declared entity types, and the entity type of the actions of each namespace with
  actions. -/
  known : KeySet Name
  namespaces : Table (Option Name) Annotations
  deriving DecidableEq

namespace Index

/-- No declarations. -/
def empty : Index := ⟨∅, ∅, ∅, ∅, ∅⟩

/-- An index with the problems found while collecting it. -/
abbrev Collected := Index × List Problem

/-- Adds a problem. -/
def report (c : Collected) (cause : Cause) (location : Option Location) : Collected :=
  (c.1, c.2 ++ [⟨cause, location⟩])

/-- Adds the annotations of a namespace to those that it has. -/
def addAnnotations (ns : Option Name) (notes : Annotations) (c : Collected) : Collected :=
  let before := (c.1.namespaces.find? ns).getD ∅
  let after := notes.entries.foldl (fun t (key, text) ↦ t.insert key text) before
  ({ c.1 with namespaces := c.1.namespaces.insert ns after }, c.2)

/-- Adds a common type of a namespace. -/
def addCommonType (ns : Option Name) (c : Collected)
    (entry : Identifier × Declaration (TypeExpr TypeRef)) : Collected :=
  let name := Name.under ns entry.1
  if c.1.commonTypes.contains name then
    report c (.duplicateCommonType name) entry.2.location
  else ({ c.1 with commonTypes := c.1.commonTypes.insert name ⟨entry.2, ns⟩ }, c.2)

/-- Adds an entity type of a namespace. -/
def addEntityType (ns : Option Name) (c : Collected)
    (entry : Identifier × Declaration EntityType) : Collected :=
  let name := Name.under ns entry.1
  match c.1.entityTypes.find? name with
  | some earlier =>
    if earlier.declaration.body.isEnumerated = entry.2.body.isEnumerated then
      report c (.duplicateEntityType name) entry.2.location
    else report c (.enumConflict name) entry.2.location
  | none =>
    ({ c.1 with
        entityTypes := c.1.entityTypes.insert name ⟨entry.2, ns⟩
        known := c.1.known.add name }, c.2)

/-- Adds an action of a namespace. -/
def addAction (ns : Option Name) (c : Collected) (entry : String × Declaration Action) :
    Collected :=
  let uid : Uid := ⟨actionEntityType ns, entry.1⟩
  let c : Collected := ({ c.1 with known := c.1.known.add uid.type }, c.2)
  if c.1.actions.contains uid then report c (.duplicateAction uid) entry.2.location
  else ({ c.1 with actions := c.1.actions.insert uid ⟨entry.2, ns⟩ }, c.2)

/-- Adds the declarations of a namespace. -/
def addNamespace (c : Collected) (entry : Option Name × Namespace) : Collected :=
  let (ns, d) := entry
  let c := addAnnotations ns d.annotations c
  let c := d.commonTypes.entries.foldl (addCommonType ns) c
  let c := d.entityTypes.entries.foldl (addEntityType ns) c
  d.actions.entries.foldl (addAction ns) c

/-- Adds the declarations of a schema. -/
def addSchema (c : Collected) (s : Schema) : Collected :=
  s.namespaces.entries.foldl addNamespace c

/-- The declarations of schemas, and the problems found while collecting them. -/
def collect (schemas : List Schema) : Collected := schemas.foldl addSchema (empty, [])

/-- The entity type that a name written in a namespace means: a known one of the anonymous
namespace if the name is bare, and otherwise the name qualified with the namespace. -/
def entityName (index : Index) (ns : Option Name) (n : Name) : Name :=
  if n.isBare && index.known.contains n then n else n.seenFrom ns

/-- The action that a reference written in a namespace means. -/
def actionUid (ns : Option Name) (r : ActionRef) : Uid :=
  match r.type with
  | some n => ⟨n.seenFrom ns, r.id⟩
  | none => ⟨actionEntityType ns, r.id⟩

/-- The declared common type that a bare identifier written in a namespace means: that of the
namespace, or else that of the anonymous namespace. -/
def commonTypeName? (index : Index) (ns : Option Name) (id : Identifier) : Option Name :=
  if index.commonTypes.contains (Name.under ns id) then some (Name.under ns id)
  else if index.commonTypes.contains (Name.bare id) then some (Name.bare id)
  else none

/-- The declared common type that a name written in a namespace means. -/
def commonType? (index : Index) (ns : Option Name) (n : Name) : Option Name :=
  if n.isBare then index.commonTypeName? ns n.basename
  else if index.commonTypes.contains n then some n
  else none

end Index

/-- What a reference leads to, with all look-up done. -/
inductive Target where
  | atom (a : Atom)
  /-- The body of a declared common type. -/
  | common (name : Name)
  /-- An entity type, which may be undeclared. -/
  | entity (name : Name)
  /-- An extension type, which may be unknown or disabled. -/
  | extension (id : Identifier)
  /-- A common type that is not declared. -/
  | missingCommon (name : Name)
  deriving DecidableEq

namespace Index

/-- What a name that may be that of a built-in type leads to. -/
def builtinTarget (id : Identifier) : Target :=
  match Primitive.ofName? id.text with
  | some p => .atom (.primitive p)
  | none => .extension id

/-- What a bare name that may be that of any type leads to. The primitive types come first, then
common types, entity types of the anonymous namespace, extension types, and entity types of the
namespace. -/
def bareTarget (index : Index) (ns : Option Name) (n : Name) : Target :=
  match Primitive.ofName? n.basename.text with
  | some p => .atom (.primitive p)
  | none =>
    match index.commonTypeName? ns n.basename with
    | some common => .common common
    | none =>
      if index.known.contains n then .atom (.entity n)
      else if isKnownExtension n.basename.text then .extension n.basename
      else .entity (n.seenFrom ns)

/-- What a reference written in a namespace leads to. -/
def target (index : Index) (ns : Option Name) : TypeRef → Target
  | .primitive p => .atom (.primitive p)
  | .extension id => .extension id
  | .entity n => .entity (index.entityName ns n)
  | .common n =>
    match index.commonType? ns n with
    | some common => .common common
    | none =>
      match Primitive.ofName? n.basename.text with
      | some p => if n.isBare then .atom (.primitive p) else .missingCommon n
      | none => .missingCommon n
  | .entityOrCommon n =>
    match n.builtin? with
    | some id => builtinTarget id
    | none =>
      if n.isBare then index.bareTarget ns n
      else if index.commonTypes.contains n then .common n
      else .entity n

end Index

end PolicySchema.Resolve
