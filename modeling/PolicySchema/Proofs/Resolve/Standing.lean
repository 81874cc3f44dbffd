import PolicySchema.Proofs.Resolve.Hierarchies

/-!
# Nothing dangles in a resolved schema

Every entity type that a resolved schema mentions, in whatever place, is declared in the schemas it
was resolved from or is the entity type of their actions, and every extension type is enabled
(`resolveAll_stands`).
-/

namespace PolicySchema

open Relation

namespace ResolvedSchema

variable (r : ResolvedSchema)

/-- The schema holds the type: as the attributes or tags of an entity type, or as the context of an
action. -/
inductive HasType : ResolvedType → Prop where
  | attributes {n e} : r.entityTypes.find? n = some e → HasType e.attributes.toType
  | tags {n e t} : r.entityTypes.find? n = some e → e.tags = some t → HasType t
  | context {uid a applies} : r.actions.find? uid = some a → a.appliesTo = some applies →
      HasType applies.context.toType

/-- The schema mentions the name of an entity type. -/
inductive Mentions : Name → Prop where
  | entityType {n e} : r.entityTypes.find? n = some e → Mentions n
  | memberOf {n e m} : r.entityTypes.find? n = some e → e.memberOf.contains m = true → Mentions m
  | descendant {n e m} : r.entityTypes.find? n = some e → e.descendants.contains m = true →
      Mentions m
  | choice {n e uids uid} : r.entityTypes.find? n = some e → e.choices = some uids → uid ∈ uids →
      Mentions uid.type
  | inType {t n} : r.HasType t → .entity n ∈ t.leaves → Mentions n
  | action {uid a} : r.actions.find? uid = some a → Mentions uid.type
  | actionMemberOf {uid a u} : r.actions.find? uid = some a → a.memberOf.contains u = true →
      Mentions u.type
  | actionDescendant {uid a u} : r.actions.find? uid = some a → a.descendants.contains u = true →
      Mentions u.type
  | principal {uid a applies n} : r.actions.find? uid = some a → a.appliesTo = some applies →
      applies.principals.contains n = true → Mentions n
  | resource {uid a applies n} : r.actions.find? uid = some a → a.appliesTo = some applies →
      applies.resources.contains n = true → Mentions n

end ResolvedSchema

/-- The schema declares the entity type in one of its namespaces, or it is the entity type of the
actions of a namespace that has some. -/
def Schema.Introduces (s : Schema) (n : Name) : Prop :=
  ∃ ns d, s.namespaces.find? ns = some d ∧
    ((∃ id, d.entityTypes.contains id = true ∧ n = Name.under ns id) ∨
      d.actions.isEmpty = false ∧ n = actionEntityType ns)

/-- What a resolved schema refers to is there: in the schema itself, and in the schemas that it was
resolved from. -/
structure ResolvedSchema.Stands (extensions : Extensions) (schemas : List Schema)
    (r : ResolvedSchema) : Prop where
  entityTypes : ∀ n, r.Mentions n → r.isKnownEntityType n = true
  actions : ∀ uid a, r.actions.find? uid = some a →
    ∀ u, a.memberOf.contains u = true ∨ a.descendants.contains u = true →
      r.actions.contains u = true
  extensions : ∀ t, r.HasType t → ∀ id, .extension id ∈ t.leaves →
    extensions.isEnabled id.text = true
  known : ∀ n, r.isKnownEntityType n = true ↔ ∃ s ∈ schemas, s.Introduces n

namespace Resolve

/-! ### Declared entity types -/

/-- What schemas declare stands in one of their namespaces. -/
theorem mem_declared_iff {schemas : List Schema} {x : Declared} :
    x ∈ declared schemas ↔
      ∃ s ∈ schemas, ∃ ns d, s.namespaces.find? ns = some d ∧ x ∈ declaredIn ns d := by
  simp [declared, Table.find?_eq_some_iff]

private theorem hasEntityType_declaredIn_iff {ns : Option Name} {d : Namespace} {n : Name} :
    HasEntityType (declaredIn ns d) n ↔
      (∃ id, d.entityTypes.contains id = true ∧ n = Name.under ns id) ∨
        d.actions.isEmpty = false ∧ n = actionEntityType ns := by
  have hactions : d.actions.isEmpty = false ↔ ∃ id a, (id, a) ∈ d.actions.entries := by
    rw [Table.isEmpty, ← Bool.not_eq_true, List.isEmpty_iff, List.eq_nil_iff_forall_not_mem]
    simp
  simp only [HasEntityType, declaredIn, hactions, Table.contains, Option.isSome_iff_exists,
    Table.find?_eq_some_iff]
  simp [eq_comm (a := n)]

private theorem hasEntityType_iff {schemas : List Schema} {n : Name} :
    HasEntityType (declared schemas) n ↔ ∃ s ∈ schemas, s.Introduces n := by
  have hdeclared : HasEntityType (declared schemas) n ↔ ∃ s ∈ schemas, ∃ ns d,
      s.namespaces.find? ns = some d ∧ HasEntityType (declaredIn ns d) n := by
    simp only [HasEntityType, mem_declared_iff]
    constructor
    · rintro (⟨x, s, hs, ns, d, hd, hx⟩ | ⟨uid, x, ⟨s, hs, ns, d, hd, hx⟩, rfl⟩)
      · exact ⟨s, hs, ns, d, hd, .inl ⟨x, hx⟩⟩
      · exact ⟨s, hs, ns, d, hd, .inr ⟨uid, x, hx, rfl⟩⟩
    · rintro ⟨s, hs, ns, d, hd, ⟨x, hx⟩ | ⟨uid, x, hx, rfl⟩⟩
      · exact .inl ⟨x, s, hs, ns, d, hd, hx⟩
      · exact .inr ⟨uid, x, ⟨s, hs, ns, d, hd, hx⟩, rfl⟩
  simp only [hdeclared, hasEntityType_declaredIn_iff, Schema.Introduces]

variable {index : Index} {extensions : Extensions} {r : ResolvedSchema}

private theorem isKnownEntityType_iff {ds : List Declared} (hindex : index.Retains ds)
    (hfinds : index.Finds extensions r.entityTypes r.actions) {n : Name} :
    r.isKnownEntityType n = true ↔ HasEntityType ds n := by
  have haction (uid : Uid) : uid ∈ r.actions.keys ↔ ∃ d, .action uid d ∈ ds := by
    rw [Table.mem_keys_iff, ← hfinds.contains_action_iff hindex, Table.contains]
  simp only [ResolvedSchema.isKnownEntityType, Bool.or_eq_true, List.any_eq_true,
    hfinds.contains_entityType_iff hindex, decide_eq_true_eq, haction, HasEntityType]
  grind

/-! ### Mentioned entity types -/

private theorem contains_of_descendants {κ α : Type} [Ord κ] {t : Table κ α}
    {memberOf descendants : α → KeySet κ} (h : t.IsHierarchy memberOf descendants) {a b : κ}
    {v : α} (hv : t.find? a = some v) (hb : (descendants v).contains b = true) :
    t.contains b = true := by
  obtain ⟨-, ⟨w, hw, -⟩, -⟩ := TransGen.head'_iff.mp ((h.contains_iff a v hv b).mp hb)
  rw [Table.contains, hw]
  rfl

section

variable (hfinds : index.Finds extensions r.entityTypes r.actions)
include hfinds

private theorem entityFound {n : Name} {e : ResolvedEntityType}
    (he : r.entityTypes.find? n = some e) : ∃ d, EntityFound index extensions n d e := by
  obtain ⟨d, -, hfound⟩ := exists_left_of_rel (hfinds.entityType n) he
  exact ⟨d, hfound⟩

private theorem actionFound {uid : Uid} {a : ResolvedAction}
    (ha : r.actions.find? uid = some a) : ∃ d, ActionFound index extensions d a := by
  obtain ⟨d, -, hfound⟩ := exists_left_of_rel (hfinds.action uid) ha
  exact ⟨d, hfound⟩

private theorem stands_of_hasType {t : ResolvedType} (h : r.HasType t) :
    Resolve.Stands index extensions t := by
  cases h with
  | attributes he =>
    obtain ⟨d, hfound⟩ := entityFound hfinds he
    exact hfound.attributes
  | tags he ht =>
    obtain ⟨d, hfound⟩ := entityFound hfinds he
    exact hfound.tags t ht
  | context ha happlies =>
    obtain ⟨d, hfound⟩ := actionFound hfinds ha
    exact (hfound.appliesTo _ happlies).context

variable {ds : List Declared} (hindex : index.Retains ds) (hclosed : HasHierarchies r)
include hindex

private theorem isKnown_of_known {n : Name} (h : index.known.contains n = true) :
    r.isKnownEntityType n = true :=
  (isKnownEntityType_iff hindex hfinds).mpr ((hindex.known n).mp h)

private theorem isKnown_of_entityType {n : Name} (h : r.entityTypes.contains n = true) :
    r.isKnownEntityType n = true :=
  (isKnownEntityType_iff hindex hfinds).mpr (.inl ((hfinds.contains_entityType_iff hindex).mp h))

private theorem isKnown_of_action {uid : Uid} (h : r.actions.contains uid = true) :
    r.isKnownEntityType uid.type = true := by
  obtain ⟨d, hd⟩ := (hfinds.contains_action_iff hindex).mp h
  exact (isKnownEntityType_iff hindex hfinds).mpr (.inr ⟨uid, d, hd, rfl⟩)

private theorem contains_of_memberOf {uid u : Uid} {a : ResolvedAction}
    (ha : r.actions.find? uid = some a) (hu : a.memberOf.contains u = true) :
    r.actions.contains u = true := by
  obtain ⟨d, hfound⟩ := actionFound hfinds ha
  rw [hfinds.contains_action_iff hindex, ← hindex.contains_action_iff]
  exact ((hfound.memberOf u).mp hu).1

include hclosed

private theorem isKnown_of_mentions {n : Name} (h : r.Mentions n) :
    r.isKnownEntityType n = true := by
  cases h with
  | entityType he => exact isKnown_of_entityType hfinds hindex (by simp [Table.contains, he])
  | memberOf he hm =>
    obtain ⟨d, hfound⟩ := entityFound hfinds he
    exact isKnown_of_known hfinds hindex ((hfound.memberOf _).mp hm).1
  | descendant he hm =>
    exact isKnown_of_entityType hfinds hindex (contains_of_descendants hclosed.entityTypes he hm)
  | choice he hchoices huid =>
    obtain ⟨d, hfound⟩ := entityFound hfinds he
    rw [hfound.choices _ hchoices _ huid]
    exact isKnown_of_entityType hfinds hindex (by simp [Table.contains, he])
  | inType ht hn => exact isKnown_of_known hfinds hindex (stands_of_hasType hfinds ht _ hn)
  | action ha => exact isKnown_of_action hfinds hindex (by simp [Table.contains, ha])
  | actionMemberOf ha hu =>
    exact isKnown_of_action hfinds hindex (contains_of_memberOf hfinds hindex ha hu)
  | actionDescendant ha hu =>
    exact isKnown_of_action hfinds hindex (contains_of_descendants hclosed.actions ha hu)
  | principal ha happlies hn =>
    obtain ⟨d, hfound⟩ := actionFound hfinds ha
    exact isKnown_of_known hfinds hindex ((hfound.appliesTo _ happlies).principals _ hn)
  | resource ha happlies hn =>
    obtain ⟨d, hfound⟩ := actionFound hfinds ha
    exact isKnown_of_known hfinds hindex ((hfound.appliesTo _ happlies).resources _ hn)

end

end Resolve

open Resolve

/-- Nothing dangles in a resolved schema. -/
theorem resolveAll_stands {checks : StackChecks} {extensions : Extensions} {schemas : List Schema}
    {r : ResolvedSchema} (h : resolveAllUnder checks extensions schemas = .ok r) :
    r.Stands extensions schemas := by
  obtain ⟨hindex, -⟩ := Index.retains_collect schemas
  obtain ⟨hfinds, hclosed⟩ := exists_finds_of_resolveAll h
  constructor
  · exact fun n hn ↦ isKnown_of_mentions hfinds hindex hclosed hn
  · rintro uid a ha u (hu | hu)
    · exact contains_of_memberOf hfinds hindex ha hu
    · exact contains_of_descendants hclosed.actions ha hu
  · exact fun t ht id hid ↦ stands_of_hasType hfinds ht _ hid
  · exact fun n ↦ (isKnownEntityType_iff hindex hfinds).trans hasEntityType_iff

-- A schema in which an entity type has the name of a common type that refers to itself, and an
-- action is a member of another one.
private def directory : Schema :=
  let office : Identifier := ⟨"Office", by decide⟩
  let person : Identifier := ⟨"Person", by decide⟩
  let personRef : TypeExpr TypeRef := .leaf (.entityOrCommon (.bare person))
  let fields : Fields TypeRef :=
    .cons "age" (.leaf (.extension ⟨"decimal", by decide⟩)) true ∅
      (.cons "manager" personRef false ∅ .nil)
  ⟨.ofList [(some (.bare office), { Namespace.empty with
    commonTypes := .ofList [(person, ⟨.record fields ∅, ∅, none⟩)]
    entityTypes := .ofList [(person, ⟨.standard [] none (some personRef), ∅, none⟩)]
    actions := .ofList [
      ("read", ⟨⟨[], none⟩, ∅, none⟩),
      ("view", ⟨⟨[⟨none, "read"⟩], some ⟨[.bare person], [.bare person], some personRef⟩⟩,
        ∅, none⟩)] })]⟩

/-- A common type refers to itself as an entity type, which the resolved schema knows. -/
theorem resolveAll_stands_directory :
    let person : Name := ⟨[⟨"Office", by decide⟩], ⟨"Person", by decide⟩⟩
    ∃ r, resolveAll .all [directory] = .ok r ∧
      (r.entityTypes.find? person).map (fun e ↦ e.tags) = some (some (.record
        (.cons "age" (.leaf (.extension ⟨"decimal", by decide⟩)) true ∅
          (.cons "manager" (.leaf (.entity person)) false ∅ .nil)) ∅)) ∧
      r.Stands .all [directory] := by
  intro person
  have htags : ((resolveAll .all [directory]).toOption.bind fun r ↦
      (r.entityTypes.find? person).map fun e ↦ e.tags) = some (some (.record
        (.cons "age" (.leaf (.extension ⟨"decimal", by decide⟩)) true ∅
          (.cons "manager" (.leaf (.entity person)) false ∅ .nil)) ∅)) := by decide +kernel
  cases hr : resolveAll .all [directory] with
  | error e =>
    rw [hr] at htags
    cases htags
  | ok r =>
    rw [hr] at htags
    exact ⟨r, rfl, htags, resolveAll_stands hr⟩

end PolicySchema
