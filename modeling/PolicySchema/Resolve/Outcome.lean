import PolicySchema.Resolve.Declarations

/-!
# Resolving schemas

Several schemas are resolved together as one. Common types come first, then entity types, then
actions, each in the order of their names, and last both hierarchies are closed. The result is a
resolved schema if no problem was found, and otherwise the problems in the order in which they were
found.
-/

namespace PolicySchema.Resolve

open Resolving

/-- The descendants of each member of a hierarchy, direct or through others, with the members that
lie on a cycle. -/
def descendants {κ α : Type} [Ord κ] [Std.TransOrd κ] (t : Table κ α)
    (memberOf : α → KeySet κ) : Graph κ × List κ :=
  match (Graph.reverse (t.map memberOf)).closeChecked true with
  | (closed, .ok ()) => (closed, [])
  | (closed, .error loops) => (closed, loops)

/-- Reports the entity types that lie on a cycle, at the place of the first. -/
def reportEntityCycle (index : Index) : List Name → Resolving Unit
  | [] => pure ()
  | first :: others =>
    report (.entityTypeCycle (first :: others))
      ((index.entityTypes.find? first).bind fun e ↦ e.declaration.location)

/-- Reports the actions that lie on a cycle, at the place of the first. -/
def reportActionCycle (index : Index) : List Uid → Resolving Unit
  | [] => pure ()
  | first :: others =>
    report (.actionCycle (first :: others))
      ((index.actions.find? first).bind fun a ↦ a.declaration.location)

/-- Closes both hierarchies and reports their cycles. -/
def closeHierarchies (index : Index) (entityTypes : Table Name ResolvedEntityType)
    (actions : Table Uid ResolvedAction) : Resolving ResolvedSchema := do
  let (entityGraph, entityLoops) := descendants entityTypes ResolvedEntityType.memberOf
  let (actionGraph, actionLoops) := descendants actions ResolvedAction.memberOf
  reportEntityCycle index entityLoops
  reportActionCycle index actionLoops
  pure {
    entityTypes := entityTypes.mapEntries fun n e ↦
      { e with descendants := (entityGraph.find? n).getD ∅ }
    actions := actions.mapEntries fun u a ↦
      { a with descendants := (actionGraph.find? u).getD ∅ }
    namespaces := index.namespaces }

/-- The state in which no body has been walked, with the given checks of the stack to come. -/
def State.start (checks : StackChecks) (index : Index) (problems : List Problem) : State :=
  ⟨index.commonTypes.map fun _ ↦ .waiting, problems, 0, [], checks⟩

/-- Resolves collected declarations, walking the common types in the given order. -/
def resolveIndex (index : Index) (extensions : Extensions) (order : List Name) :
    Resolving ResolvedSchema := do
  resolveCommonTypes index extensions order
  let entityTypes ← resolveEntries (resolveEntityType index extensions) index.entityTypes.entries
  let actions ← resolveEntries (resolveAction index extensions) index.actions.entries
  closeHierarchies index (Table.ofList entityTypes) (Table.ofList actions)

/-- The outcome of a run: the resolved schema if there is no problem. -/
def outcome (r : ResolvedSchema × State) : Except (List Problem) ResolvedSchema :=
  if r.2.problems.isEmpty then .ok r.1 else .error r.2.problems

end PolicySchema.Resolve

namespace PolicySchema

/-- Resolves schemas together as one, with the given extension types enabled and the given checks of
the stack. -/
def resolveAllUnder (checks : StackChecks) (extensions : Extensions) (schemas : List Schema) :
    Except (List Resolve.Problem) ResolvedSchema :=
  let (index, problems) := Resolve.Index.collect schemas
  Resolve.outcome <| (Resolve.resolveIndex index extensions index.commonTypes.keys).run
    (Resolve.State.start checks index problems)

/-- Resolves schemas together as one, with all the stack that is needed. -/
def resolveAll (extensions : Extensions) (schemas : List Schema) :
    Except (List Resolve.Problem) ResolvedSchema :=
  resolveAllUnder [] extensions schemas

/-- Resolves a schema with the given extension types enabled and the given checks of the stack. -/
def Schema.resolveUnder (checks : StackChecks) (extensions : Extensions) (s : Schema) :
    Except (List Resolve.Problem) ResolvedSchema :=
  resolveAllUnder checks extensions [s]

/-- Resolves a schema with all the stack that is needed. -/
def Schema.resolve (extensions : Extensions) (s : Schema) :
    Except (List Resolve.Problem) ResolvedSchema :=
  s.resolveUnder [] extensions

end PolicySchema
