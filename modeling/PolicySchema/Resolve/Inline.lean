import PolicySchema.Resolve.Index
import PolicySchema.Resolve.State

/-!
# Inlining common types

A type is resolved by replacing each reference by what it leads to. The body of a common type is
walked at most once: its outcome is kept with its depth and put in place of every later reference.
There is none if the chain of references is so long that the stack is exhausted. While the body of a
common type is being walked, a reference to it means an entity type of its name.
-/

namespace PolicySchema.Resolve

open Resolving

/-- The entity type of a name, which must be known. -/
def requireEntity (index : Index) (origin : Origin) (n : Name) : Resolving (Option Name) :=
  if index.known.contains n then pure (some n)
  else reject (.unknownEntityType n origin.label) origin

/-- The type of the entities of a known entity type. -/
def entityAtom (index : Index) (origin : Origin) (n : Name) : Resolving (Option ResolvedType) := do
  let found ← requireEntity index origin n
  pure (found.map fun n ↦ .leaf (.entity n))

/-- The type of an extension, which must be known and enabled. -/
def extensionAtom (extensions : Extensions) (origin : Origin) (id : Identifier) :
    Resolving (Option ResolvedType) :=
  if !isKnownExtension id.text then reject (.unknownExtension id.text origin.label) origin
  else if !extensions.isEnabled id.text then
    reject (.disabledExtension id.text origin.label) origin
  else pure (some (.leaf (.extension id)))

/-- How a common type is put in place of a reference that stands in a declaration. -/
abbrev Inliner := Origin → Name → Resolving (Option ResolvedType)

/-- Resolves a reference that a declaration of a namespace holds. -/
def resolveRef (index : Index) (extensions : Extensions) (inline : Inliner) (ns : Option Name)
    (origin : Origin) (r : TypeRef) : Resolving (Option ResolvedType) :=
  match index.target ns r with
  | .atom a => pure (some (.leaf a))
  | .common n => inline origin n
  | .entity n => entityAtom index origin n
  | .extension id => extensionAtom extensions origin id
  | .missingCommon n => reject (.unknownCommonType n origin.label) origin

mutual

/-- Resolves a type that a declaration holds, with its references resolved by `leaf`. -/
def resolveWith (leaf : TypeRef → Resolving (Option ResolvedType)) (origin : Origin) :
    TypeExpr TypeRef → Resolving (Option ResolvedType)
  | .leaf r => leaf r
  | .set element => do
    if ← openLevel origin then
      let element ← resolveWith leaf origin element
      closeLevel
      pure (element.map .set)
    else pure none
  | .record fields annotations => do
    if ← openLevel origin then
      let fields ← resolveFieldsWith leaf origin fields
      closeLevel
      pure (fields.map (.record · annotations))
    else pure none

/-- Resolves every attribute of a record, so that all problems are reported. -/
def resolveFieldsWith (leaf : TypeRef → Resolving (Option ResolvedType)) (origin : Origin) :
    Fields TypeRef → Resolving (Option (Fields Atom))
  | .nil => pure (some .nil)
  | .cons key type required annotations rest => do
    let type ← resolveWith leaf origin type
    let rest ← resolveFieldsWith leaf origin rest
    match type, rest with
    | some type, some rest => pure (some (.cons key type required annotations rest))
    | _, _ => pure none

end

/-- Puts the outcome of a common type inside the sets and records that are open. -/
def placeInside (origin : Origin) (outcome : Option (ResolvedType × Nat)) :
    Resolving (Option ResolvedType) := do
  match outcome with
  | none => pure none
  | some (type, depth) =>
    let s ← get
    if ← withinDepth origin (s.depth + depth) then pure (some type) else pure none

/-- A common type as the declaration that references stand in. -/
def commonOrigin (n : Name) (location : Option Location) : Origin :=
  ⟨"common type `" ++ n.text ++ "`", location⟩

/-- Resolves the body of a common type, as the declaration that its references stand in. -/
def resolveBody (index : Index) (extensions : Extensions) (inline : Inliner) (n : Name)
    (body : Placed (TypeExpr TypeRef)) : Resolving (Option ResolvedType) :=
  let origin := commonOrigin n body.declaration.location
  resolveWith (resolveRef index extensions inline body.ns origin) origin body.declaration.body

/-- What is noted of a body: the type that was found, if any, with its depth. -/
def withDepth (type : Option ResolvedType) : Option (ResolvedType × Nat) :=
  type.map fun t ↦ (t, t.nestingDepth)

/-- Walks the body of a common type with no set or record open. -/
def walkInside (index : Index) (extensions : Extensions) (inline : Inliner) (n : Name)
    (body : Placed (TypeExpr TypeRef)) : Resolving (Option (ResolvedType × Nat)) := do
  noteWalk n
  let around := (← get).depth
  setDepth 0
  let type ← resolveBody index extensions inline n body
  setDepth around
  pure (withDepth type)

/-- The outcome of the body of a common type, which is walked if there is stack left for it. -/
def outcomeOf (index : Index) (extensions : Extensions) (inline : Inliner) (n : Name)
    (body : Placed (TypeExpr TypeRef)) : Resolving (Option (ResolvedType × Nat)) := do
  if ← withinStack (.chainTooLong n) body.declaration.location then
    walkInside index extensions inline n body
  else pure none

/-- Finds the outcome of the body of a common type and notes it. -/
def walkBody (index : Index) (extensions : Extensions) (inline : Inliner) (n : Name)
    (body : Placed (TypeExpr TypeRef)) : Resolving (Option (ResolvedType × Nat)) := do
  settle n .walking
  let outcome ← outcomeOf index extensions inline n body
  settle n (.settled outcome)
  pure outcome

/-- Puts a declared common type in place of a reference. Bodies are walked inside one another at
most the given number of times, which is enough if it is the number of common types. -/
def inlineUpTo (index : Index) (extensions : Extensions) : Nat → Inliner
  | steps, origin, n => do
    match (← get).common.find? n with
    | none => pure none
    | some .walking => entityAtom index origin n
    | some (.settled outcome) => placeInside origin outcome
    | some .waiting =>
      match steps, index.commonTypes.find? n with
      | steps + 1, some body =>
        let outcome ← walkBody index extensions (inlineUpTo index extensions steps) n body
        placeInside origin outcome
      | _, _ => pure none

/-- Puts a declared common type in place of a reference. -/
def inline (index : Index) (extensions : Extensions) : Inliner :=
  inlineUpTo index extensions index.commonTypes.size

/-- Resolves a type that a declaration of a namespace holds. -/
def resolveType (index : Index) (extensions : Extensions) (ns : Option Name) (origin : Origin)
    (t : TypeExpr TypeRef) : Resolving (Option ResolvedType) :=
  resolveWith (resolveRef index extensions (inline index extensions) ns origin) origin t

/-- Walks the bodies of common types in the given order, so that problems in those that nothing
refers to are reported too. -/
def resolveCommonTypes (index : Index) (extensions : Extensions) : List Name → Resolving Unit
  | [] => pure ()
  | n :: rest => do
    let _ ← inline index extensions (commonOrigin n none) n
    resolveCommonTypes index extensions rest

end PolicySchema.Resolve
