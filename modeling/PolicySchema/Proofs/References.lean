import PolicySchema.Extension
import PolicySchema.Proofs.Table
import PolicySchema.Schema

/-!
# The references in a schema

What holds of every reference that is written in a type, and types with their references replaced.
A well-formed type lists the attributes of each record once, in the order of their keys.
-/

namespace PolicySchema

variable {ρ : Type}

/-! ### Types -/

mutual

/-- Every leaf of the type is as it should be, and attributes are listed once in key order. -/
def TypeExpr.WellFormed (P : ρ → Prop) : TypeExpr ρ → Prop
  | .leaf r => P r
  | .set element => element.WellFormed P
  | .record fields _ => Ascending fields.toList ∧ fields.WellFormed P

/-- The types of all attributes are well formed. -/
def Fields.WellFormed (P : ρ → Prop) : Fields ρ → Prop
  | .nil => True
  | .cons _ type _ _ rest => type.WellFormed P ∧ rest.WellFormed P

end

mutual

/-- The leaves of the type, in the order in which they are written. -/
def TypeExpr.leaves : TypeExpr ρ → List ρ
  | .leaf r => [r]
  | .set element => element.leaves
  | .record fields _ => fields.leaves

/-- The leaves of the types of all attributes. -/
def Fields.leaves : Fields ρ → List ρ
  | .nil => []
  | .cons _ type _ _ rest => type.leaves ++ rest.leaves

end

/-- The type with its references replaced. -/
def TypeExpr.mapRefs (f : TypeRef → TypeRef) (t : TypeExpr TypeRef) : TypeExpr TypeRef :=
  t.bind fun r ↦ .leaf (f r)

/-- The attributes with the references in their types replaced. -/
def Fields.mapRefs (f : TypeRef → TypeRef) (fields : Fields TypeRef) : Fields TypeRef :=
  fields.bind fun r ↦ .leaf (f r)

/-- The record with its references replaced. -/
def RecordType.mapRefs (f : TypeRef → TypeRef) (r : RecordType TypeRef) : RecordType TypeRef :=
  ⟨r.fields.mapRefs f, r.annotations⟩

mutual

/-- Replacing references keeps the depth. -/
theorem TypeExpr.depth_mapRefs (f : TypeRef → TypeRef) :
    ∀ t : TypeExpr TypeRef, (t.mapRefs f).depth = t.depth
  | .leaf _ => rfl
  | .set element => congrArg (· + 1) (element.depth_mapRefs f)
  | .record fields _ => congrArg (· + 1) (fields.depth_mapRefs f)

/-- Replacing references keeps the depth. -/
theorem Fields.depth_mapRefs (f : TypeRef → TypeRef) :
    ∀ fields : Fields TypeRef, (fields.mapRefs f).depth = fields.depth
  | .nil => rfl
  | .cons _ type _ _ rest => by
    have ht := type.depth_mapRefs f
    have hr := rest.depth_mapRefs f
    rw [TypeExpr.mapRefs] at ht
    rw [Fields.mapRefs] at hr ⊢
    rw [Fields.bind, Fields.depth, Fields.depth, ht, hr]

end

mutual

/-- A type stays well formed when less is asked of its leaves. -/
theorem TypeExpr.WellFormed.imp {P Q : ρ → Prop} (h : ∀ r, P r → Q r) :
    ∀ {t : TypeExpr ρ}, t.WellFormed P → t.WellFormed Q
  | .leaf _, ht => h _ ht
  | .set element, ht => TypeExpr.WellFormed.imp h (t := element) ht
  | .record _ _, ht => ⟨ht.1, Fields.WellFormed.imp h ht.2⟩

/-- The types of attributes stay well formed when less is asked of their leaves. -/
theorem Fields.WellFormed.imp {P Q : ρ → Prop} (h : ∀ r, P r → Q r) :
    ∀ {f : Fields ρ}, f.WellFormed P → f.WellFormed Q
  | .nil, _ => trivial
  | .cons .., hf => ⟨TypeExpr.WellFormed.imp h hf.1, Fields.WellFormed.imp h hf.2⟩

end

mutual

/-- A well-formed type stays so when something else is asked of each of its leaves. -/
theorem TypeExpr.WellFormed.of_leaves {P Q : ρ → Prop} : ∀ {t : TypeExpr ρ}, t.WellFormed P →
    (∀ r ∈ t.leaves, P r → Q r) → t.WellFormed Q
  | .leaf r, ht, h => h r List.mem_cons_self ht
  | .set element, ht, h => TypeExpr.WellFormed.of_leaves (t := element) ht h
  | .record _ _, ht, h => ⟨ht.1, Fields.WellFormed.of_leaves ht.2 h⟩

/-- The types of attributes stay well formed when something else is asked of their leaves. -/
theorem Fields.WellFormed.of_leaves {P Q : ρ → Prop} : ∀ {f : Fields ρ}, f.WellFormed P →
    (∀ r ∈ f.leaves, P r → Q r) → f.WellFormed Q
  | .nil, _, _ => trivial
  | .cons .., hf, h =>
    ⟨hf.1.of_leaves fun r hr ↦ h r (List.mem_append_left _ hr),
      hf.2.of_leaves fun r hr ↦ h r (List.mem_append_right _ hr)⟩

end

/-- The types of attributes are well formed if that of each one is. -/
theorem Fields.wellFormed_iff {P : ρ → Prop} :
    ∀ {f : Fields ρ}, f.WellFormed P ↔ ∀ e ∈ f.toList, e.2.type.WellFormed P
  | .nil => by simp [Fields.WellFormed, Fields.toList]
  | .cons _ _ _ _ rest => by
    rw [Fields.WellFormed, Fields.toList, List.forall_mem_cons, rest.wellFormed_iff]

/-- Attributes are no deeper than a bound if the type of each one is not. -/
theorem Fields.depth_le_iff {n : Nat} :
    ∀ {f : Fields ρ}, f.depth ≤ n ↔ ∀ e ∈ f.toList, e.2.type.depth ≤ n
  | .nil => by simp [Fields.depth, Fields.toList]
  | .cons _ _ _ _ rest => by
    rw [Fields.depth, Fields.toList, List.forall_mem_cons, Nat.max_le, rest.depth_le_iff]

mutual

/-- A type is not changed by what changes none of its references. -/
theorem TypeExpr.mapRefs_of_wellFormed {f : TypeRef → TypeRef} :
    ∀ {t : TypeExpr TypeRef}, t.WellFormed (fun r ↦ f r = r) → t.mapRefs f = t
  | .leaf _, h => congrArg TypeExpr.leaf h
  | .set element, h =>
    congrArg TypeExpr.set (TypeExpr.mapRefs_of_wellFormed (t := element) h)
  | .record _ notes, h => congrArg (TypeExpr.record · notes) (Fields.mapRefs_of_wellFormed h.2)

/-- Attributes are not changed by what changes none of their references. -/
theorem Fields.mapRefs_of_wellFormed {f : TypeRef → TypeRef} :
    ∀ {fields : Fields TypeRef}, fields.WellFormed (fun r ↦ f r = r) → fields.mapRefs f = fields
  | .nil, _ => rfl
  | .cons _ _ _ _ _, h => by
    have htype := TypeExpr.mapRefs_of_wellFormed h.1
    have hrest := Fields.mapRefs_of_wellFormed h.2
    rw [TypeExpr.mapRefs] at htype
    rw [Fields.mapRefs] at hrest ⊢
    rw [Fields.bind, htype, hrest]

end

/-- Replacing leaves replaces those in the type of each attribute. -/
theorem Fields.toList_bind {σ : Type} (f : ρ → TypeExpr σ) :
    ∀ fields : Fields ρ, (fields.bind f).toList =
      fields.toList.map fun e ↦ (e.1, ⟨e.2.type.bind f, e.2.required, e.2.annotations⟩)
  | .nil => rfl
  | .cons key type required notes rest =>
    congrArg (List.cons (key, (⟨type.bind f, required, notes⟩ : Attribute σ))) (toList_bind f rest)

/-- Replacing references replaces those in the type of each attribute. -/
theorem Fields.toList_mapRefs (f : TypeRef → TypeRef) (fields : Fields TypeRef) :
    (fields.mapRefs f).toList =
      fields.toList.map fun e ↦ (e.1, { e.2 with type := e.2.type.mapRefs f }) :=
  fields.toList_bind fun r ↦ .leaf (f r)

/-- Replacing references keeps the order of attributes. -/
theorem Fields.ascending_mapRefs {f : TypeRef → TypeRef} {fields : Fields TypeRef}
    (h : Ascending fields.toList) : Ascending (fields.mapRefs f).toList := by
  rw [toList_mapRefs]
  exact List.pairwise_map.mpr h

/-! ### Schemas -/

/-- The entity types that an entity type is declared to be a member of. -/
def EntityType.memberOf : EntityType → List Name
  | standard memberOf _ _ => memberOf
  | enumerated .. => []

/-- The texts of the entities of an enumerated entity type, in the order of their declaration. -/
def EntityType.values? : EntityType → Option (List String)
  | standard .. => none
  | enumerated first others => some (first :: others)

/-- What is known of the references and the values in an entity type. -/
def EntityType.WellFormed (P : TypeRef → Prop) : EntityType → Prop
  | .standard _ shape tags =>
    (∀ r ∈ shape, r.toType.WellFormed P) ∧ ∀ t ∈ tags, t.WellFormed P
  | .enumerated first others => (first :: others).Nodup

/-- What is known of the references in an action. -/
def Action.WellFormed (P : TypeRef → Prop) (a : Action) : Prop :=
  ∀ block ∈ a.appliesTo, ∀ t ∈ block.context, t.WellFormed P

/-- What is known of the declarations of a namespace. -/
structure Namespace.WellFormed (P : TypeRef → Prop) (ns : Namespace) : Prop where
  commonTypes : ∀ key d, (key, d) ∈ ns.commonTypes.entries → d.body.WellFormed P
  entityTypes : ∀ key d, (key, d) ∈ ns.entityTypes.entries → d.body.WellFormed P
  actions : ∀ key d, (key, d) ∈ ns.actions.entries → d.body.WellFormed P

/-- A schema is well formed if each record lists its attributes once, in key order, the values of
each enumerated entity type are different, and every reference in a type is as it should be. -/
def Schema.WellFormed (P : TypeRef → Prop) (s : Schema) : Prop :=
  ∀ name ns, (name, ns) ∈ s.namespaces.entries → ns.WellFormed P

/-- The declaration with its body replaced. -/
def Declaration.map {α β : Type} (f : α → β) (d : Declaration α) : Declaration β :=
  ⟨f d.body, d.annotations, d.location⟩

/-- The entity type with its references replaced. -/
def EntityType.mapRefs (f : TypeRef → TypeRef) : EntityType → EntityType
  | .standard memberOf shape tags =>
    .standard memberOf (shape.map (·.mapRefs f)) (tags.map (·.mapRefs f))
  | .enumerated first others => .enumerated first others

/-- The block with its references replaced. -/
def AppliesTo.mapRefs (f : TypeRef → TypeRef) (block : AppliesTo) : AppliesTo :=
  { block with context := block.context.map (·.mapRefs f) }

/-- The action with its references replaced. -/
def Action.mapRefs (f : TypeRef → TypeRef) (a : Action) : Action :=
  { a with appliesTo := a.appliesTo.map (·.mapRefs f) }

/-- The namespace with its references replaced. -/
def Namespace.mapRefs (f : TypeRef → TypeRef) (ns : Namespace) : Namespace where
  annotations := ns.annotations
  commonTypes := ns.commonTypes.map (·.map (·.mapRefs f))
  entityTypes := ns.entityTypes.map (·.map (·.mapRefs f))
  actions := ns.actions.map (·.map (·.mapRefs f))

/-- The schema with the references in its types replaced. -/
def Schema.mapRefs (f : TypeRef → TypeRef) (s : Schema) : Schema :=
  ⟨s.namespaces.map (·.mapRefs f)⟩

section

variable {P Q : TypeRef → Prop}

private theorem EntityType.WellFormed.imp (h : ∀ r, P r → Q r) {e : EntityType}
    (he : e.WellFormed P) : e.WellFormed Q := by
  cases e with
  | standard memberOf shape tags =>
    exact ⟨fun r hr ↦ (he.1 r hr).imp h, fun t ht ↦ (he.2 t ht).imp h⟩
  | enumerated first others => exact he

/-- A schema stays well formed when less is asked of its references. -/
theorem Schema.WellFormed.imp (h : ∀ r, P r → Q r) {s : Schema} (hs : s.WellFormed P) :
    s.WellFormed Q := by
  intro name ns hns
  exact {
    commonTypes := fun key d hd ↦ ((hs name ns hns).commonTypes key d hd).imp h
    entityTypes := fun key d hd ↦ ((hs name ns hns).entityTypes key d hd).imp h
    actions := fun key d hd block hblock t ht ↦
      ((hs name ns hns).actions key d hd block hblock t ht).imp h }

end

/-! ### Schemas that replacing does not change -/

section

variable {f : TypeRef → TypeRef}

private theorem map_mapRefs_of_wellFormed {t : Option (TypeExpr TypeRef)}
    (h : ∀ u ∈ t, u.WellFormed fun r ↦ f r = r) : t.map (·.mapRefs f) = t := by
  cases t with
  | none => rfl
  | some t => exact congrArg some (TypeExpr.mapRefs_of_wellFormed (h t rfl))

private theorem EntityType.mapRefs_of_wellFormed {e : EntityType}
    (h : e.WellFormed fun r ↦ f r = r) : e.mapRefs f = e := by
  cases e with
  | standard memberOf shape tags =>
    obtain ⟨hshape, htags⟩ := h
    rw [mapRefs, map_mapRefs_of_wellFormed htags]
    cases shape with
    | none => rfl
    | some r =>
      have hr := Fields.mapRefs_of_wellFormed (hshape r rfl).2
      rw [Option.map_some, RecordType.mapRefs, hr]
  | enumerated first others => rfl

private theorem Action.mapRefs_of_wellFormed {a : Action} (h : a.WellFormed fun r ↦ f r = r) :
    a.mapRefs f = a := by
  obtain ⟨memberOf, appliesTo⟩ := a
  cases appliesTo with
  | none => rfl
  | some block =>
    have hcontext := map_mapRefs_of_wellFormed (h block rfl)
    rw [mapRefs, Option.map_some, AppliesTo.mapRefs, hcontext]

private theorem Declaration.map_eq_self {α : Type} {g : α → α} {d : Declaration α}
    (h : g d.body = d.body) : d.map g = d := by
  rw [Declaration.map, h]

private theorem Namespace.mapRefs_of_wellFormed {ns : Namespace}
    (h : ns.WellFormed fun r ↦ f r = r) : ns.mapRefs f = ns := by
  have hcommon := Table.map_eq_self fun key d hd ↦ Declaration.map_eq_self (d := d)
    (TypeExpr.mapRefs_of_wellFormed (h.commonTypes key d hd))
  have hentity := Table.map_eq_self fun key d hd ↦ Declaration.map_eq_self (d := d)
    (EntityType.mapRefs_of_wellFormed (h.entityTypes key d hd))
  have haction := Table.map_eq_self fun key d hd ↦ Declaration.map_eq_self (d := d)
    (Action.mapRefs_of_wellFormed (h.actions key d hd))
  rw [Namespace.mapRefs, hcommon, hentity, haction]

/-- A schema is not changed by what changes none of its references. -/
theorem Schema.mapRefs_of_wellFormed {s : Schema} (h : s.WellFormed fun r ↦ f r = r) :
    s.mapRefs f = s := by
  rw [Schema.mapRefs, Table.map_eq_self fun name ns hns ↦
    Namespace.mapRefs_of_wellFormed (h name ns hns)]

end

end PolicySchema
