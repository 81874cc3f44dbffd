import PolicySchema.Proofs.References
import PolicySchema.Proofs.Text.Statements
import PolicySchema.Text.Write

/-!
# The members of a namespace

The common types, entity types and actions of a namespace are listed together, in the order in which
both forms take them. What is written, stated and checked for a namespace is made up of what is
written, stated and checked for its members.
-/

namespace PolicySchema

open Text (Statement Piece entityTypeExprs actionTypeExprs)
open Text.Writing (key typeParts entityParts actionParts declarationParts)

/-- A declaration of a namespace under its name. -/
inductive Namespace.Member where
  | commonType (id : Identifier) (d : Declaration (TypeExpr TypeRef))
  | entityType (id : Identifier) (d : Declaration EntityType)
  | action (id : String) (d : Declaration Action)

/-- What is known of the types of a standard entity type is known of its shape and its tags. -/
theorem Text.forall_mem_entityTypeExprs (memberOf : List Name)
    {shape : Option (RecordType TypeRef)} {tags : Option (TypeExpr TypeRef)}
    {P : TypeExpr TypeRef → Prop} :
    (∀ t ∈ entityTypeExprs (.standard memberOf shape tags), P t) ↔
      (∀ r ∈ shape, P r.toType) ∧ ∀ t ∈ tags, P t := by
  cases shape <;> cases tags <;> simp [entityTypeExprs]

/-- What is known of the types of an action is known of its context. -/
theorem Text.forall_mem_actionTypeExprs {a : Action} {P : TypeExpr TypeRef → Prop} :
    (∀ t ∈ actionTypeExprs a, P t) ↔ ∀ block ∈ a.appliesTo, ∀ t ∈ block.context, P t := by
  obtain ⟨memberOf, appliesTo⟩ := a
  cases appliesTo <;> simp [actionTypeExprs]

namespace Namespace

namespace Member

/-- The types written in the declaration, in the order in which they are checked. -/
def types : Member → List (TypeExpr TypeRef)
  | commonType _ d => [d.body]
  | entityType _ d => entityTypeExprs d.body
  | action _ d => actionTypeExprs d.body

/-- The text that names the declaration in a namespace. -/
def label (name : Option Name) (m : Member) : String :=
  let outer := (name.map fun n ↦ n.text ++ "::").getD ""
  match m with
  | commonType id _ | entityType id _ => outer ++ id.text
  | action id _ => outer ++ "Action::" ++ Literal.quote id

/-- The declaration in the text form. -/
def parts (indent : Nat) : Member → List Piece
  | commonType id d =>
    declarationParts indent d.annotations "type" (.word id.text)
      ([.blank " ", .mark .equals, .blank " "] ++ typeParts indent d.body)
  | entityType id d =>
    declarationParts indent d.annotations "entity" (.word id.text) (entityParts indent d.body)
  | action id d =>
    declarationParts indent d.annotations "action" (key id) (actionParts indent d.body)

/-- What the declaration states. -/
def statement (name : Option Name) : Member → Statement
  | commonType id d => .commonType name id d.body d.annotations
  | entityType id d => .entityType name id d.body d.annotations
  | action id d => .action name id d.body d.annotations

/-- The declaration with its references replaced. -/
def mapRefs (f : TypeRef → TypeRef) : Member → Member
  | commonType id d => commonType id (d.map (·.mapRefs f))
  | entityType id d => entityType id (d.map (·.mapRefs f))
  | action id d => action id (d.map (·.mapRefs f))

/-- What is known of the references and the values in the declaration. -/
def WellFormed (P : TypeRef → Prop) : Member → Prop
  | commonType _ d => d.body.WellFormed P
  | entityType _ d => d.body.WellFormed P
  | action _ d => d.body.WellFormed P

end Member

/-- The declarations of a namespace: common types, entity types, actions. -/
def members (ns : Namespace) : List Member :=
  (ns.commonTypes.entries.map fun (id, d) ↦ .commonType id d) ++
  (ns.entityTypes.entries.map fun (id, d) ↦ .entityType id d) ++
  (ns.actions.entries.map fun (id, d) ↦ .action id d)

/-- A namespace with a member declares something. -/
theorem hasDeclarations_of_mem {ns : Namespace} {m : Member} (h : m ∈ ns.members) :
    ns.hasDeclarations = true := by
  cases hdeclares : ns.hasDeclarations with
  | true => rfl
  | false =>
    have hempty : ns.members = [] := by
      simp_all [members, hasDeclarations, Table.isEmpty]
    rw [hempty] at h
    cases h

/-- The members of a namespace are its declarations with the references replaced in each. -/
theorem members_mapRefs (f : TypeRef → TypeRef) (ns : Namespace) :
    (ns.mapRefs f).members = ns.members.map (Member.mapRefs f) := by
  simp [members, mapRefs, Table.map, Table.mapEntries, Member.mapRefs, Function.comp_def]

/-- What a namespace states is what its members state. -/
theorem declarations_eq_map (name : Option Name) (ns : Namespace) :
    ns.declarations name = ns.members.map (Member.statement name) := by
  simp [declarations, members, Member.statement, Function.comp_def]

/-- What is written for a namespace is what is written for its members. -/
theorem namespaceDeclarations_eq_map (indent : Nat) (ns : Namespace) :
    Text.Writing.namespaceDeclarations indent ns = ns.members.map (Member.parts indent) := by
  simp [Text.Writing.namespaceDeclarations, members, Member.parts, Function.comp_def,
    Text.Writing.space]

/-- The types of a namespace are those of its members. -/
theorem namespaceTypeExprs_eq_flatMap (name : Option Name) (ns : Namespace) :
    Text.namespaceTypeExprs name ns =
      ns.members.flatMap fun m ↦ m.types.map fun t ↦ (m.label name, t) := by
  simp only [Text.namespaceTypeExprs, members, List.flatMap_append, List.flatMap_map]
  simp only [Member.types, Member.label, List.map_cons, List.map_nil]
  rw [List.map_eq_flatMap]

/-- Every declaration of a well-formed namespace is well-formed. -/
theorem WellFormed.member {P : TypeRef → Prop} {ns : Namespace} (h : ns.WellFormed P) :
    ∀ m ∈ ns.members, m.WellFormed P := by
  simp only [members, List.forall_mem_append, List.forall_mem_map]
  exact ⟨⟨fun e he ↦ h.commonTypes e.1 e.2 he, fun e he ↦ h.entityTypes e.1 e.2 he⟩,
    fun e he ↦ h.actions e.1 e.2 he⟩

end Namespace

/-- A schema that holds statements holds them for the members of its namespaces. -/
theorem Schema.Holds.statement_mem {s : Schema} {ss : List Statement} {name : Option Name}
    {ns : Namespace} (hs : s.Holds ss) (hns : s.namespace? name = some ns) :
    ∀ m ∈ ns.members, m.statement name ∈ ss := by
  simp only [Namespace.members, List.forall_mem_append, List.forall_mem_map]
  refine ⟨⟨fun e he ↦ (hs.commonTypes name _ _ _).mp ⟨e.2.location, ?_⟩,
    fun e he ↦ (hs.entityTypes name _ _ _).mp ⟨e.2.location, ?_⟩⟩,
    fun e he ↦ (hs.actions name _ _ _).mp ⟨e.2.location, ?_⟩⟩
  · rw [Schema.commonType?, hns, Option.bind_some, Table.find?_eq_some_iff.mpr he]
  · rw [Schema.entityType?, hns, Option.bind_some, Table.find?_eq_some_iff.mpr he]
  · rw [Schema.action?, hns, Option.bind_some, Table.find?_eq_some_iff.mpr he]

end PolicySchema
