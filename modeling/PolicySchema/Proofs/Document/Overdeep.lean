import PolicySchema.Proofs.Document.Written
import PolicySchema.Proofs.Except
import PolicySchema.Proofs.Overdeep
import PolicySchema.Proofs.Text.Vetting

/-!
# Schemas that nest too deep in the JSON form

A schema in which only the depth of some type stands against writing has no document, and the path
of the error leads into the first declaration with such a type (`Document.writeValue_of_breaksAt`).
-/

namespace PolicySchema

/-! ### Records without annotations -/

section

variable {ρ : Type}

private theorem TypeExpr.IsPlain.not_isAnnotatedRecord {t : TypeExpr ρ} (h : t.IsPlain) :
    ¬ t.IsAnnotatedRecord := by
  cases t with
  | record fields notes => exact not_not_intro h.1
  | _ => exact not_false

mutual

private theorem TypeExpr.IsPlain.not_hasAnnotatedAttribute :
    ∀ {t : TypeExpr ρ}, t.IsPlain → ¬ t.HasAnnotatedAttribute
  | .leaf _, _ => not_false
  | .set element, h => TypeExpr.IsPlain.not_hasAnnotatedAttribute (t := element) h
  | .record _ _, h => Fields.IsPlain.not_hasAnnotatedAttribute h.2

private theorem Fields.IsPlain.not_hasAnnotatedAttribute :
    ∀ {f : Fields ρ}, f.IsPlain → ¬ f.HasAnnotatedAttribute
  | .nil, _ => not_false
  | .cons _ type _ _ rest, h => by
    rw [Fields.HasAnnotatedAttribute, not_or, not_or]
    exact ⟨h.1.not_isAnnotatedRecord, TypeExpr.IsPlain.not_hasAnnotatedAttribute h.1,
      Fields.IsPlain.not_hasAnnotatedAttribute h.2⟩

end

end

namespace Document

open Namespace (Member)

/-- A type without annotated records that does not nest too deep can be written anywhere. -/
theorem writable_of_isPlain {t : TypeExpr TypeRef} (hplain : t.IsPlain)
    (hdepth : t.depth ≤ TypeExpr.maxDepth) (place : Place) : Writable place t :=
  ⟨hdepth, fun _ ↦ hplain.not_isAnnotatedRecord, hplain.not_hasAnnotatedAttribute⟩

/-- The error is that a type nests too deep, in the part that a path leads to. -/
structure Error.IsOverdeepIn (e : Error) (path : Pointer) : Prop where
  cause : e.cause = .tooDeep
  inside : path.keys <+: e.path.keys

/-- What lies in a part under a key lies in the whole. -/
theorem Error.IsOverdeepIn.of_child {e : Error} {path : Pointer} {key : String}
    (h : e.IsOverdeepIn (path.child key)) : e.IsOverdeepIn path :=
  ⟨h.cause, (List.prefix_append path.keys [key]).trans h.inside⟩

/-! ### Types -/

variable {e : Error} {path : Pointer}

mutual

/-- Without annotated records, a type has no object only for its depth. -/
theorem isOverdeepIn_of_typeObject {place : Place} {path : Pointer} {depth : Nat} :
    ∀ {t : TypeExpr TypeRef}, t.IsPlain → typeObject place path depth t = .error e →
      e.IsOverdeepIn path
  | .leaf _, _, h => by cases h
  | .set element, hplain, h => by
    rw [typeObject] at h
    split at h
    · cases h
      exact ⟨rfl, List.prefix_rfl⟩
    · split at h
      · next helement =>
        cases h
        exact (isOverdeepIn_of_typeObject (t := element) hplain helement).of_child
      · cases h
  | .record fields notes, hplain, h => by
    obtain ⟨rfl, hfields⟩ := hplain
    have hnotes : (place.isDeclaring && !(∅ : Annotations).isEmpty) = false := Bool.and_false _
    rw [typeObject, hnotes] at h
    split at h
    · cases h
      exact ⟨rfl, List.prefix_rfl⟩
    · rw [if_neg Bool.false_ne_true] at h
      split at h
      · next hmembers =>
        cases h
        exact (isOverdeepIn_of_fieldObjects hfields hmembers).of_child
      · cases h

private theorem isOverdeepIn_of_fieldObjects {path : Pointer} {depth : Nat} :
    ∀ {fields : Fields TypeRef}, fields.IsPlain → fieldObjects path depth fields = .error e →
      e.IsOverdeepIn path
  | .nil, _, h => by cases h
  | .cons key type required notes rest, hplain, h => by
    rw [fieldObjects] at h
    split at h
    · next htype =>
      cases h
      exact (isOverdeepIn_of_typeObject hplain.1 htype).of_child
    · split at h
      · next hrest =>
        cases h
        exact isOverdeepIn_of_fieldObjects hplain.2 hrest
      · cases h

end

/-! ### Declarations -/

private theorem isOverdeepIn_of_optionalTypeObject {key : String} {t : Option (TypeExpr TypeRef)}
    (hplain : ∀ u ∈ t, u.IsPlain) (h : optionalTypeObject path key t = .error e) :
    e.IsOverdeepIn path := by
  cases t with
  | none => cases h
  | some t =>
    rw [optionalTypeObject] at h
    cases htype : typeObject .inner (path.child key) 0 t with
    | ok o =>
      rw [htype] at h
      cases h
    | error e' =>
      rw [htype] at h
      cases h
      exact (isOverdeepIn_of_typeObject (hplain t rfl) htype).of_child

end Document

namespace Namespace.Member

open Document

/-- Where a declaration stands in the object of its namespace. -/
def pathIn (outer : Pointer) : Member → Pointer
  | commonType id _ => (outer.child "commonTypes").child id.text
  | entityType id _ => (outer.child "entityTypes").child id.text
  | action id _ => (outer.child "actions").child id

/-- Where a declaration of a namespace stands in the document. -/
def path (name : Option Name) : Member → Pointer :=
  pathIn (Pointer.root.child (namespaceKey name))

/-- Whether a declaration has an object in that of its namespace. -/
def objectStatus (outer : Pointer) : Member → Except Document.Error Unit
  | commonType id d => Except.status (commonTypeMember (outer.child "commonTypes") id d)
  | entityType id d => Except.status (entityTypeMember (outer.child "entityTypes") id d)
  | action id d => Except.status (actionMember (outer.child "actions") id d)

variable {outer : Pointer} {m : Member}

/-- A declaration has an object exactly if its types can be written. -/
theorem objectStatus_eq_ok_iff :
    m.objectStatus outer = .ok () ↔ ∀ t ∈ m.types, Writable m.place t := by
  cases m with
  | commonType id d =>
    simp [objectStatus, Except.status_eq_ok_iff, commonTypeMember_eq_ok_iff, types, place]
  | entityType id d =>
    simp [objectStatus, Except.status_eq_ok_iff, entityTypeMember_eq_ok_iff, types, place]
  | action id d =>
    simp [objectStatus, Except.status_eq_ok_iff, actionMember_eq_ok_iff, types, place]

/-- A declaration without annotated records has no object only for the depth of a type in it. -/
theorem isOverdeepIn_of_objectStatus {e : Document.Error} (hplain : ∀ t ∈ m.types, t.IsPlain)
    (h : m.objectStatus outer = .error e) : e.IsOverdeepIn (m.pathIn outer) := by
  cases m with
  | commonType id d =>
    rw [objectStatus, Except.status_eq_error_iff, commonTypeMember, Except.bind_eq_error_iff] at h
    rcases h with h | ⟨o, -, h⟩
    · exact isOverdeepIn_of_typeObject (hplain d.body List.mem_cons_self) h
    · cases h
  | entityType id d =>
    obtain ⟨body, notes, location⟩ := d
    rw [objectStatus, Except.status_eq_error_iff] at h
    cases body with
    | enumerated first others => cases h
    | standard memberOf shape tags =>
      obtain ⟨hshape, htags⟩ := (Text.forall_mem_entityTypeExprs memberOf).mp hplain
      simp only [entityTypeMember, Except.bind_eq_error_iff] at h
      rcases h with h | ⟨o, -, h | ⟨o', -, h⟩⟩
      · refine isOverdeepIn_of_optionalTypeObject (fun u hu ↦ ?_) h
        obtain ⟨r, hr, rfl⟩ := Option.map_eq_some_iff.mp hu
        exact hshape r hr
      · exact isOverdeepIn_of_optionalTypeObject htags h
      · cases h
  | action id d =>
    obtain ⟨⟨memberOf, appliesTo⟩, notes, location⟩ := d
    rw [objectStatus, Except.status_eq_error_iff, actionMember, Except.bind_eq_error_iff] at h
    rcases h with h | ⟨o, -, h⟩
    · cases appliesTo with
      | none => cases h
      | some block =>
        have hcontext := Text.forall_mem_actionTypeExprs.mp hplain block rfl
        rw [appliesToObject, Except.bind_eq_error_iff] at h
        rcases h with h | ⟨o, -, h⟩
        · exact (isOverdeepIn_of_optionalTypeObject hcontext h).of_child
        · cases h
    · cases h

end Namespace.Member

/-! ### Namespaces and schemas -/

namespace Document

open Namespace (Member)

/-- A namespace has an object unless one of its members has none, and fails as the first of these
does. -/
theorem status_namespaceObject (path : Pointer) (ns : Namespace) :
    Except.status (namespaceObject path ns) = ns.members.forM (Member.objectStatus path) := by
  simp only [List.forM_eq_forM, Namespace.members, List.forM_append, List.forM_map]
  rw [namespaceObject, Except.status_bind _ fun commonTypes ↦
    Except.status_bind _ fun entityTypes ↦ Except.status_bind_pure _ _]
  simp only [Except.status_mapM, List.forM_eq_forM, bind_assoc]
  rfl

/-- A schema has a JSON form unless some member of a namespace has no object, and fails as the first
of these does. -/
theorem status_writeValue (s : Schema) :
    Except.status (writeValue s) = s.namespaces.entries.forM fun e ↦
      e.2.members.forM (Member.objectStatus (Pointer.root.child (namespaceKey e.1))) := by
  rw [writeValue, Except.status_bind_pure, ofSchema, Except.status_bind_pure, Except.status_mapM]
  simp only [Except.status_bind_pure, status_namespaceObject]

variable {s : Schema} {name : Option Name} {ns : Namespace} {m : Member}

private theorem objectStatus_of_withinDepth (outer : Pointer) (h : m.WithinDepth)
    (hplain : ∀ t ∈ m.types, t.IsPlain) : m.objectStatus outer = .ok () :=
  Member.objectStatus_eq_ok_iff.mpr fun t ht ↦ writable_of_isPlain (hplain t ht) (h t ht) m.place

private theorem objectStatus_of_overdeep (outer : Pointer) (h : ¬ m.WithinDepth)
    (hplain : ∀ t ∈ m.types, t.IsPlain) :
    ∃ e, m.objectStatus outer = .error e ∧ e.IsOverdeepIn (m.pathIn outer) := by
  cases hm : m.objectStatus outer with
  | ok u => exact absurd (fun t ht ↦ (Member.objectStatus_eq_ok_iff.mp hm t ht).depth) h
  | error e => exact ⟨e, rfl, Member.isOverdeepIn_of_objectStatus hplain hm⟩

/-- A schema that does not nest too deep has a JSON form. -/
theorem exists_writeValue_of_withinDepth (hplain : s.IsPlain) (h : s.WithinDepth) :
    ∃ j, writeValue s = .ok j := by
  rw [← Except.status_eq_ok_iff, status_writeValue, Except.forM_eq_ok_iff]
  intro e he
  exact Except.forM_eq_ok_iff.mpr fun m hm ↦
    objectStatus_of_withinDepth _ (h e he m hm) (hplain.types e he m hm)

/-- A schema that only nests too deep has no JSON form, and the path of the error leads into the
declaration where it breaks the limit. -/
theorem writeValue_of_breaksAt (hplain : s.IsPlain) (h : s.BreaksAt name ns m) :
    ∃ e, writeValue s = .error e ∧ e.IsOverdeepIn (m.path name) := by
  obtain ⟨before, after, hentries, hbefore⟩ := h.namespaces
  obtain ⟨earlier, later, hmembers, hearlier⟩ := h.inside.members
  have htypes := hplain.types
  rw [hentries, List.forall_mem_append, List.forall_mem_cons] at htypes
  obtain ⟨hbeforePlain, hplain, -⟩ := htypes
  rw [hmembers, List.forall_mem_append, List.forall_mem_cons] at hplain
  obtain ⟨e, he, hin⟩ :=
    objectStatus_of_overdeep (Pointer.root.child (namespaceKey name)) h.inside.overdeep hplain.2.1
  refine ⟨e, ?_, hin⟩
  rw [← Except.status_eq_error_iff, status_writeValue, hentries]
  refine Except.forM_eq_error (fun b hb ↦ Except.forM_eq_ok_iff.mpr fun k hk ↦ ?_) ?_
  · exact objectStatus_of_withinDepth _ (hbefore b hb k hk) (hbeforePlain b hb k hk)
  · rw [hmembers]
    exact Except.forM_eq_error
      (fun k hk ↦ objectStatus_of_withinDepth _ (hearlier k hk) (hplain.1 k hk)) he

end Document

end PolicySchema
