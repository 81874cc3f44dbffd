import PolicySchema.Resolve.Inline

/-!
# Resolving declarations

An entity type or an action is resolved on its own, up to its descendants. What it refers to and is
not declared is reported and left out, and the rest of it is resolved all the same.
-/

namespace PolicySchema.Resolve

open Resolving

/-- The parents of an entity type that are known. The others are reported. -/
def resolveParents (index : Index) (name : Name) (ns : Option Name) (location : Option Location) :
    List Name → Resolving (List Name)
  | [] => pure []
  | n :: rest => do
    let parent := index.entityName ns n
    if index.known.contains parent then
      let others ← resolveParents index name ns location rest
      pure (parent :: others)
    else
      report (.unknownEntityParent name parent) location
      resolveParents index name ns location rest

/-- Resolves an optional type that a declaration of a namespace holds. -/
def resolveOptionalType (index : Index) (extensions : Extensions) (ns : Option Name)
    (origin : Origin) : Option (TypeExpr TypeRef) → Resolving (Option ResolvedType)
  | none => pure none
  | some t => resolveType index extensions ns origin t

/-- An entity type, without its descendants. -/
def resolveEntityType (index : Index) (extensions : Extensions) (name : Name)
    (e : Placed EntityType) : Resolving ResolvedEntityType := do
  let d := e.declaration
  let origin : Origin := ⟨"entity type `" ++ name.text ++ "`", d.location⟩
  match d.body with
  | .standard memberOf shape tags =>
    let parents ← resolveParents index name e.ns d.location memberOf
    let shape ← resolveOptionalType index extensions e.ns origin (shape.map RecordType.toType)
    let tags ← resolveOptionalType index extensions e.ns origin tags
    pure {
      memberOf := KeySet.ofList parents
      descendants := ∅
      attributes := (shape.bind TypeExpr.record?).getD .empty
      tags := tags
      choices := none
      annotations := d.annotations }
  | .enumerated first others =>
    pure {
      memberOf := ∅
      descendants := ∅
      attributes := .empty
      tags := none
      choices := some ((first :: others).map fun id ↦ ⟨name, id⟩)
      annotations := d.annotations }

/-- The parents of an action that are declared. The others are reported. -/
def resolveActionParents (index : Index) (uid : Uid) (ns : Option Name)
    (location : Option Location) : List ActionRef → Resolving (List Uid)
  | [] => pure []
  | r :: rest => do
    let parent := Index.actionUid ns r
    if index.actions.contains parent then
      let others ← resolveActionParents index uid ns location rest
      pure (parent :: others)
    else
      report (.unknownActionParent uid parent) location
      resolveActionParents index uid ns location rest

/-- The known entity types that names written in a namespace mean. The others are reported. -/
def resolveNames (index : Index) (ns : Option Name) (origin : Origin) :
    List Name → Resolving (List Name)
  | [] => pure []
  | n :: rest => do
    let found ← requireEntity index origin (index.entityName ns n)
    let others ← resolveNames index ns origin rest
    pure (found.toList ++ others)

/-- The context of an action, which must be a record. -/
def resolveContext (index : Index) (extensions : Extensions) (uid : Uid) (ns : Option Name)
    (origin : Origin) (context : Option (TypeExpr TypeRef)) : Resolving ResolvedRecord := do
  match ← resolveOptionalType index extensions ns origin context with
  | none => pure .empty
  | some t =>
    match t.record? with
    | some r => pure r
    | none =>
      report (.contextNotRecord uid) origin.location
      pure .empty

/-- What an action applies to. -/
def resolveAppliesTo (index : Index) (extensions : Extensions) (uid : Uid) (ns : Option Name)
    (origin : Origin) : Option AppliesTo → Resolving (Option ResolvedAppliesTo)
  | none => pure none
  | some a => do
    let principals ← resolveNames index ns origin a.principals
    let resources ← resolveNames index ns origin a.resources
    let context ← resolveContext index extensions uid ns origin a.context
    pure (some ⟨KeySet.ofList principals, KeySet.ofList resources, context⟩)

/-- An action, without its descendants. -/
def resolveAction (index : Index) (extensions : Extensions) (uid : Uid) (a : Placed Action) :
    Resolving ResolvedAction := do
  let d := a.declaration
  let origin : Origin := ⟨"action `" ++ uid.text ++ "`", d.location⟩
  let parents ← resolveActionParents index uid a.ns d.location d.body.memberOf
  let appliesTo ← resolveAppliesTo index extensions uid a.ns origin d.body.appliesTo
  pure {
    memberOf := KeySet.ofList parents
    descendants := ∅
    appliesTo := appliesTo
    annotations := d.annotations }

/-- Resolves entries in order, each under its key. -/
def resolveEntries {κ α β : Type} (f : κ → α → Resolving β) :
    List (κ × α) → Resolving (List (κ × β))
  | [] => pure []
  | (k, a) :: rest => do
    let b ← f k a
    let others ← resolveEntries f rest
    pure ((k, b) :: others)

end PolicySchema.Resolve
