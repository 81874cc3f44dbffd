import PolicySchema.Proofs.References
import PolicySchema.Proofs.Related

/-!
# Schemas that differ in the leaves of types

Two types may have the same sets and records, with the same keys, flags and annotations, and differ
only in their leaves (`TypeExpr.Leafwise`). So may entity types, actions and whole schemas
(`Schema.Leafwise`).
-/

namespace PolicySchema

section

variable (L : TypeRef → TypeRef → Prop)

mutual

/-- The types are the same but for their leaves, which are related one by one. -/
inductive TypeExpr.Leafwise : TypeExpr TypeRef → TypeExpr TypeRef → Prop where
  | leaf {r r'} : L r r' → TypeExpr.Leafwise (.leaf r) (.leaf r')
  | set {t t'} : TypeExpr.Leafwise t t' → TypeExpr.Leafwise (.set t) (.set t')
  | record {fields fields' notes} : Fields.Leafwise fields fields' →
      TypeExpr.Leafwise (.record fields notes) (.record fields' notes)

/-- The attributes are the same but for the leaves of their types. -/
inductive Fields.Leafwise : Fields TypeRef → Fields TypeRef → Prop where
  | nil : Fields.Leafwise .nil .nil
  | cons {key t t' required notes rest rest'} : TypeExpr.Leafwise t t' →
      Fields.Leafwise rest rest' →
      Fields.Leafwise (.cons key t required notes rest) (.cons key t' required notes rest')

end

/-- The entity types are the same but for the leaves of their types. -/
inductive EntityType.Leafwise : EntityType → EntityType → Prop where
  | standard {memberOf shape shape' tags tags'} :
      Option.Rel (TypeExpr.Leafwise L) (shape.map RecordType.toType)
        (shape'.map RecordType.toType) →
      Option.Rel (TypeExpr.Leafwise L) tags tags' →
      Leafwise (.standard memberOf shape tags) (.standard memberOf shape' tags')
  | enumerated (first : String) (others : List String) :
      Leafwise (.enumerated first others) (.enumerated first others)

/-- The actions are the same but for the leaves of their contexts. -/
inductive Action.Leafwise : Action → Action → Prop where
  | group (memberOf : List ActionRef) : Leafwise ⟨memberOf, none⟩ ⟨memberOf, none⟩
  | applies {memberOf principals resources context context'} :
      Option.Rel (TypeExpr.Leafwise L) context context' →
      Leafwise ⟨memberOf, some ⟨principals, resources, context⟩⟩
        ⟨memberOf, some ⟨principals, resources, context'⟩⟩

end

section

variable {L : TypeRef → TypeRef → Prop}

mutual

/-- A type is leafwise related to itself by a reflexive relation. -/
theorem TypeExpr.Leafwise.refl (h : ∀ r, L r r) : ∀ t : TypeExpr TypeRef, t.Leafwise L t
  | .leaf r => .leaf (h r)
  | .set element => .set (TypeExpr.Leafwise.refl h element)
  | .record fields _ => .record (Fields.Leafwise.refl h fields)

/-- The fields of a record are leafwise related to themselves by a reflexive relation. -/
theorem Fields.Leafwise.refl (h : ∀ r, L r r) :
    ∀ fields : Fields TypeRef, fields.Leafwise L fields
  | .nil => .nil
  | .cons _ t _ _ rest => .cons (TypeExpr.Leafwise.refl h t) (Fields.Leafwise.refl h rest)

end

/-- An entity type is leafwise related to itself by a reflexive relation. -/
theorem EntityType.Leafwise.refl (h : ∀ r, L r r) (e : EntityType) : e.Leafwise L e := by
  cases e with
  | standard => exact .standard (rel_refl (.refl h) _) (rel_refl (.refl h) _)
  | enumerated first others => exact .enumerated first others

/-- An action is leafwise related to itself by a reflexive relation. -/
theorem Action.Leafwise.refl (h : ∀ r, L r r) (a : Action) : a.Leafwise L a := by
  obtain ⟨memberOf, _ | ⟨principals, resources, context⟩⟩ := a
  · exact .group memberOf
  · exact .applies (rel_refl (.refl h) _)

variable {f : TypeRef → TypeRef}

mutual

/-- A type differs in its leaves only from the one with its references replaced. -/
theorem TypeExpr.leafwise_mapRefs :
    ∀ {t : TypeExpr TypeRef}, (∀ r ∈ t.leaves, L r (f r)) → t.Leafwise L (t.mapRefs f)
  | .leaf _, h => .leaf (h _ List.mem_cons_self)
  | .set _, h => .set (TypeExpr.leafwise_mapRefs h)
  | .record .., h => .record (Fields.leafwise_mapRefs h)

/-- Attributes differ in the leaves of their types only from those with the references replaced. -/
theorem Fields.leafwise_mapRefs :
    ∀ {fields : Fields TypeRef}, (∀ r ∈ fields.leaves, L r (f r)) →
      fields.Leafwise L (fields.mapRefs f)
  | .nil, _ => .nil
  | .cons .., h =>
    .cons (TypeExpr.leafwise_mapRefs fun r hr ↦ h r (List.mem_append_left _ hr))
      (Fields.leafwise_mapRefs fun r hr ↦ h r (List.mem_append_right _ hr))

end

end

/-- The declarations are the same but for their bodies and places, which are related. -/
inductive Declaration.Matches {α : Type} (P : Option Location → Option Location → Prop)
    (B : α → α → Prop) : Declaration α → Declaration α → Prop where
  | declared {body body' notes location location'} : B body body' → P location location' →
      Matches P B ⟨body, notes, location⟩ ⟨body', notes, location'⟩

/-- The namespaces declare the same, in the same places, but for the leaves of types. -/
structure Namespace.Leafwise (L : TypeRef → TypeRef → Prop) (d d' : Namespace) : Prop where
  annotations : d'.annotations = d.annotations
  commonTypes : d.commonTypes.Matches (fun _ ↦ Declaration.Matches Eq (TypeExpr.Leafwise L))
    d'.commonTypes
  entityTypes : d.entityTypes.Matches (fun _ ↦ Declaration.Matches Eq (EntityType.Leafwise L))
    d'.entityTypes
  actions : d.actions.Matches (fun _ ↦ Declaration.Matches Eq (Action.Leafwise L)) d'.actions

/-- The schemas declare the same, in the same places, but for the leaves of types, which are related
as they may be in their namespace. -/
def Schema.Leafwise (L : Option Name → TypeRef → TypeRef → Prop) (s s' : Schema) : Prop :=
  s.namespaces.Matches (fun ns ↦ Namespace.Leafwise (L ns)) s'.namespaces

end PolicySchema
