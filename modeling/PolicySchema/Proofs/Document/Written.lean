import PolicySchema.Document.Write
import PolicySchema.Proofs.Document.JsonForm
import PolicySchema.Proofs.Members
import PolicySchema.Proofs.References
import PolicySchema.Text.Write

/-!
# Which schemas have a document

A schema has a document if no type in it is too deep, and no record with annotations of its own is
directly an attribute or a common type. The document then has an object for each part of the schema
(`Document.namespaceOf`), and its JSON form is not deeper than a reader of JSON goes.
-/

namespace PolicySchema

open Json
open Text (entityTypeExprs actionTypeExprs)

/-! ### What cannot be written -/

section Types

variable {ρ : Type}

/-- The type is directly a record with annotations of its own. -/
def TypeExpr.IsAnnotatedRecord : TypeExpr ρ → Prop
  | .record _ notes => notes ≠ ∅
  | _ => False

mutual

/-- An attribute somewhere in the type is directly a record with annotations of its own. -/
def TypeExpr.HasAnnotatedAttribute : TypeExpr ρ → Prop
  | .leaf _ => False
  | .set element => element.HasAnnotatedAttribute
  | .record fields _ => fields.HasAnnotatedAttribute

/-- One of the attributes, or one inside their types, is directly a record with annotations of its
own. -/
def Fields.HasAnnotatedAttribute : Fields ρ → Prop
  | .nil => False
  | .cons _ type _ _ rest =>
    type.IsAnnotatedRecord ∨ type.HasAnnotatedAttribute ∨ rest.HasAnnotatedAttribute

end

end Types

/-- The types in a namespace, each with its place. -/
def Namespace.types (ns : Namespace) : List (Place × TypeExpr TypeRef) :=
  (ns.commonTypes.entries.map fun e ↦ (.commonType, e.2.body)) ++
  (ns.entityTypes.entries.flatMap fun e ↦ (entityTypeExprs e.2.body).map fun t ↦ (.inner, t)) ++
  (ns.actions.entries.flatMap fun e ↦ (actionTypeExprs e.2.body).map fun t ↦ (.inner, t))

/-- The types in a schema, each with its place. -/
def Schema.types (s : Schema) : List (Place × TypeExpr TypeRef) :=
  s.namespaces.entries.flatMap fun e ↦ e.2.types

/-- The place of the types in a declaration. -/
def Namespace.Member.place : Member → Place
  | commonType .. => .commonType
  | entityType .. | action .. => .inner

/-- The types in a namespace are those in its members. -/
theorem Namespace.types_eq_flatMap (ns : Namespace) :
    ns.types = ns.members.flatMap fun m ↦ m.types.map fun t ↦ (m.place, t) := by
  simp only [types, members, List.flatMap_append, List.flatMap_map]
  simp only [Member.types, Member.place, List.map_cons, List.map_nil]
  rw [List.map_eq_flatMap]

/-- What is known of all types in a schema is known of those in each member of a namespace. -/
theorem Schema.forall_mem_types {s : Schema} {P : Place × TypeExpr TypeRef → Prop} :
    (∀ p ∈ s.types, P p) ↔
      ∀ e ∈ s.namespaces.entries, ∀ m ∈ e.2.members, ∀ t ∈ m.types, P (m.place, t) := by
  simp only [types, Namespace.types_eq_flatMap, List.forall_mem_flatMap, List.forall_mem_map]

namespace Document

/-- A type can be written at its place. -/
structure Writable (place : Place) (t : TypeExpr TypeRef) : Prop where
  depth : t.depth ≤ TypeExpr.maxDepth
  own : place.isDeclaring = true → ¬ t.IsAnnotatedRecord
  inside : ¬ t.HasAnnotatedAttribute

/-! ### The objects of types -/

mutual

/-- The type object of a type, whatever it is. -/
def objectOf : TypeExpr TypeRef → TypeObject
  | .leaf r => refObject r
  | .set element => { TypeObject.ofType "Set" with element := some (objectOf element) }
  | .record fields notes =>
    { TypeObject.ofType "Record" with
      attributes := some (membersOf fields)
      annotations := annotationMembers notes }

/-- The members for the attributes of a record, whatever they are. -/
def membersOf : Fields TypeRef → List (String × TypeObject)
  | .nil => []
  | .cons key type required notes rest =>
    (key, { objectOf type with
      required := if required then none else some false
      annotations := annotationMembers notes }) :: membersOf rest

end

private theorem typeObject_set_eq_ok {place : Place} {path : Pointer} {depth : Nat}
    {element : TypeExpr TypeRef} {o : TypeObject} :
    typeObject place path depth (.set element) = .ok o ↔
      depth + 1 ≤ TypeExpr.maxDepth ∧
        ∃ inner, typeObject .inner (path.child "element") (depth + 1) element = .ok inner ∧
          o = { TypeObject.ofType "Set" with element := some inner } := by
  rw [typeObject]
  split
  · next h =>
    refine iff_of_false nofun ?_
    rintro ⟨hroom, -⟩
    omega
  · next h =>
    rw [and_iff_right (Nat.le_of_not_lt h)]
    split
    · next he => simp [he]
    · next inner hinner => simp [hinner, eq_comm]

private theorem typeObject_record_eq_ok {place : Place} {path : Pointer} {depth : Nat}
    {fields : Fields TypeRef} {notes : Annotations} {o : TypeObject} :
    typeObject place path depth (.record fields notes) = .ok o ↔
      depth + 1 ≤ TypeExpr.maxDepth ∧ (place.isDeclaring = true → notes = ∅) ∧
        ∃ members, fieldObjects (path.child "attributes") (depth + 1) fields = .ok members ∧
          o = { TypeObject.ofType "Record" with
                attributes := some members
                annotations := annotationMembers notes } := by
  rw [typeObject]
  split
  · next h =>
    refine iff_of_false nofun ?_
    rintro ⟨hroom, -⟩
    omega
  · next h =>
    rw [and_iff_right (Nat.le_of_not_lt h)]
    split
    · next hown =>
      rw [Bool.and_eq_true, Bool.not_eq_true'] at hown
      refine iff_of_false nofun ?_
      rintro ⟨hempty, -⟩
      rw [hempty hown.1] at hown
      cases hown.2
    · next hown =>
      have hempty : place.isDeclaring = true → notes = ∅ := by
        intro hplace
        simpa [hplace, Table.isEmpty_iff] using hown
      rw [and_iff_right hempty]
      split
      · next he => simp [he]
      · next members hmembers => simp [hmembers, eq_comm]

private theorem fieldObjects_cons_eq_ok {path : Pointer} {depth : Nat} {key : String}
    {type : TypeExpr TypeRef} {required : Bool} {notes : Annotations} {rest : Fields TypeRef}
    {members : List (String × TypeObject)} :
    fieldObjects path depth (.cons key type required notes rest) = .ok members ↔
      ∃ o more, typeObject .attribute (path.child key) depth type = .ok o ∧
        fieldObjects path depth rest = .ok more ∧
        members = (key, { o with
          required := if required then none else some false
          annotations := annotationMembers notes }) :: more := by
  rw [fieldObjects]
  split
  · next he => simp [he]
  · next o ho =>
    split
    · next he => simp [ho, he]
    · next more hmore => simp [ho, hmore, eq_comm]

mutual

private theorem typeObject_eq_ok_iff {place : Place} {path : Pointer} {depth : Nat}
    {o : TypeObject} : ∀ {t : TypeExpr TypeRef}, depth ≤ TypeExpr.maxDepth →
      (typeObject place path depth t = .ok o ↔
        (depth + t.depth ≤ TypeExpr.maxDepth ∧
          (place.isDeclaring = true → ¬ t.IsAnnotatedRecord) ∧ ¬ t.HasAnnotatedAttribute) ∧
        o = objectOf t)
  | .leaf r, hdepth => by
    rw [typeObject]
    constructor
    · rintro ⟨⟩
      exact ⟨⟨hdepth, fun _ h ↦ h, fun h ↦ h⟩, rfl⟩
    · rintro ⟨-, rfl⟩
      rfl
  | .set element, hdepth => by
    have hsum : depth + (element.depth + 1) = depth + 1 + element.depth := by omega
    rw [typeObject_set_eq_ok, TypeExpr.depth, hsum]
    constructor
    · rintro ⟨hroom, inner, hinner, rfl⟩
      obtain ⟨⟨hle, -, hinside⟩, rfl⟩ := (typeObject_eq_ok_iff hroom).mp hinner
      exact ⟨⟨hle, fun _ h ↦ h, hinside⟩, rfl⟩
    · rintro ⟨⟨hle, -, hinside⟩, rfl⟩
      have hroom : depth + 1 ≤ TypeExpr.maxDepth := by omega
      exact ⟨hroom, _, (typeObject_eq_ok_iff hroom).mpr ⟨⟨hle, nofun, hinside⟩, rfl⟩, rfl⟩
  | .record fields notes, hdepth => by
    have hsum : depth + (fields.depth + 1) = depth + 1 + fields.depth := by omega
    rw [typeObject_record_eq_ok, TypeExpr.depth, hsum]
    constructor
    · rintro ⟨hroom, hown, members, hmembers, rfl⟩
      obtain ⟨⟨hle, hinside⟩, rfl⟩ := (fieldObjects_eq_ok_iff hroom).mp hmembers
      exact ⟨⟨hle, fun hplace hnotes ↦ hnotes (hown hplace), hinside⟩, rfl⟩
    · rintro ⟨⟨hle, hown, hinside⟩, rfl⟩
      have hroom : depth + 1 ≤ TypeExpr.maxDepth := by omega
      exact ⟨hroom, fun hplace ↦ not_not.mp (hown hplace), _,
        (fieldObjects_eq_ok_iff hroom).mpr ⟨⟨hle, hinside⟩, rfl⟩, rfl⟩

private theorem fieldObjects_eq_ok_iff {path : Pointer} {depth : Nat}
    {members : List (String × TypeObject)} : ∀ {fields : Fields TypeRef},
      depth ≤ TypeExpr.maxDepth →
      (fieldObjects path depth fields = .ok members ↔
        (depth + fields.depth ≤ TypeExpr.maxDepth ∧ ¬ fields.HasAnnotatedAttribute) ∧
        members = membersOf fields)
  | .nil, hdepth => by
    rw [fieldObjects]
    constructor
    · rintro ⟨⟩
      exact ⟨⟨hdepth, fun h ↦ h⟩, rfl⟩
    · rintro ⟨-, rfl⟩
      rfl
  | .cons key type required notes rest, hdepth => by
    have hmax : depth + (Fields.cons key type required notes rest).depth ≤ TypeExpr.maxDepth ↔
        depth + type.depth ≤ TypeExpr.maxDepth ∧ depth + rest.depth ≤ TypeExpr.maxDepth := by
      rw [Fields.depth]
      omega
    rw [fieldObjects_cons_eq_ok, hmax, Fields.HasAnnotatedAttribute, not_or, not_or]
    constructor
    · rintro ⟨o, more, ho, hmore, rfl⟩
      obtain ⟨⟨hle, hown, hinside⟩, rfl⟩ := (typeObject_eq_ok_iff hdepth).mp ho
      obtain ⟨⟨hle', hrest⟩, rfl⟩ := (fieldObjects_eq_ok_iff hdepth).mp hmore
      exact ⟨⟨⟨hle, hle'⟩, hown rfl, hinside, hrest⟩, rfl⟩
    · rintro ⟨⟨⟨hle, hle'⟩, hown, hinside, hrest⟩, rfl⟩
      exact ⟨_, _, (typeObject_eq_ok_iff hdepth).mpr ⟨⟨hle, fun _ ↦ hown, hinside⟩, rfl⟩,
        (fieldObjects_eq_ok_iff hdepth).mpr ⟨⟨hle', hrest⟩, rfl⟩, rfl⟩

end

/-- A type has the object of its parts exactly if it can be written. -/
theorem typeObject_zero_eq_ok_iff {place : Place} {path : Pointer} {t : TypeExpr TypeRef}
    {o : TypeObject} : typeObject place path 0 t = .ok o ↔ Writable place t ∧ o = objectOf t := by
  rw [typeObject_eq_ok_iff (Nat.zero_le _), Nat.zero_add]
  refine and_congr_left fun _ ↦ ⟨?_, ?_⟩
  · rintro ⟨hdepth, hown, hinside⟩
    exact ⟨hdepth, hown, hinside⟩
  · intro h
    exact ⟨h.depth, h.own, h.inside⟩

/-! ### The objects of declarations -/

private theorem optionalTypeObject_eq_ok_iff {path : Pointer} {key : String}
    {t : Option (TypeExpr TypeRef)} {o : Option TypeObject} :
    optionalTypeObject path key t = .ok o ↔
      (∀ u ∈ t, Writable .inner u) ∧ o = t.map objectOf := by
  cases t with
  | none => simp [optionalTypeObject, eq_comm]
  | some t =>
    rw [optionalTypeObject, Except.map_eq_ok_iff]
    simp only [typeObject_zero_eq_ok_iff, Option.mem_some_iff, forall_eq', Option.map_some]
    constructor
    · rintro ⟨_, ⟨h, rfl⟩, rfl⟩
      exact ⟨h, rfl⟩
    · rintro ⟨h, rfl⟩
      exact ⟨_, ⟨h, rfl⟩, rfl⟩

/-- The member for a common type, whatever it is. -/
def commonTypeOf (e : Identifier × Declaration (TypeExpr TypeRef)) : String × TypeObject :=
  (e.1.text, { objectOf e.2.body with annotations := annotationMembers e.2.annotations })

/-- A common type is emitted exactly when its type is writable, as the member the object form
names. -/
theorem commonTypeMember_eq_ok_iff {path : Pointer} {id : Identifier}
    {d : Declaration (TypeExpr TypeRef)} {m : String × TypeObject} :
    commonTypeMember path id d = .ok m ↔
      Writable .commonType d.body ∧ m = commonTypeOf (id, d) := by
  rw [commonTypeMember, Except.bind_eq_ok_iff]
  simp only [typeObject_zero_eq_ok_iff]
  constructor
  · rintro ⟨_, ⟨h, rfl⟩, ⟨⟩⟩
    exact ⟨h, rfl⟩
  · rintro ⟨h, rfl⟩
    exact ⟨_, ⟨h, rfl⟩, rfl⟩

/-- The member for an entity type, whatever it is. -/
def entityTypeOf (e : Identifier × Declaration EntityType) : String × EntityTypeObject :=
  (e.1.text, match e.2.body with
    | .enumerated first others =>
      ⟨none, none, none, some (first :: others), annotationMembers e.2.annotations⟩
    | .standard memberOf shape tags =>
      ⟨nonemptyList Name.text memberOf, (shape.map RecordType.toType).map objectOf,
        tags.map objectOf, none, annotationMembers e.2.annotations⟩)

/-- An entity type is emitted exactly when its shape and its tags are writable. -/
theorem entityTypeMember_eq_ok_iff {path : Pointer} {id : Identifier}
    {d : Declaration EntityType} {m : String × EntityTypeObject} :
    entityTypeMember path id d = .ok m ↔
      (∀ t ∈ entityTypeExprs d.body, Writable .inner t) ∧ m = entityTypeOf (id, d) := by
  obtain ⟨body, notes, place⟩ := d
  cases body with
  | enumerated first others =>
    constructor
    · rintro ⟨⟩
      exact ⟨nofun, rfl⟩
    · rintro ⟨-, rfl⟩
      rfl
  | standard memberOf shape tags =>
    simp only [entityTypeMember, entityTypeExprs, Except.bind_eq_ok_iff,
      optionalTypeObject_eq_ok_iff, List.forall_mem_append, Option.mem_toList]
    constructor
    · rintro ⟨_, ⟨hshape, rfl⟩, _, ⟨htags, rfl⟩, ⟨⟩⟩
      exact ⟨⟨hshape, htags⟩, rfl⟩
    · rintro ⟨⟨hshape, htags⟩, rfl⟩
      exact ⟨_, ⟨hshape, rfl⟩, _, ⟨htags, rfl⟩, rfl⟩

/-- The member for an action, whatever it is. -/
def actionOf (e : String × Declaration Action) : String × ActionObject :=
  (e.1, {
    memberOf := nonemptyList (fun r ↦ ⟨r.type.map Name.text, r.id⟩) e.2.body.memberOf
    appliesTo := e.2.body.appliesTo.map fun a ↦
      ⟨some (a.principals.map Name.text), some (a.resources.map Name.text),
        a.context.map objectOf⟩
    annotations := annotationMembers e.2.annotations })

/-- An action is emitted exactly when its context is writable. -/
theorem actionMember_eq_ok_iff {path : Pointer} {id : String} {d : Declaration Action}
    {m : String × ActionObject} : actionMember path id d = .ok m ↔
      (∀ t ∈ actionTypeExprs d.body, Writable .inner t) ∧ m = actionOf (id, d) := by
  obtain ⟨⟨memberOf, appliesTo⟩, notes, place⟩ := d
  cases appliesTo with
  | none =>
    constructor
    · rintro ⟨⟩
      exact ⟨nofun, rfl⟩
    · rintro ⟨-, rfl⟩
      rfl
  | some block =>
    simp only [actionMember, appliesToObject, actionTypeExprs, Except.bind_eq_ok_iff,
      optionalTypeObject_eq_ok_iff, Option.mem_toList, Option.bind_some]
    constructor
    · rintro ⟨_, ⟨_, ⟨hcontext, rfl⟩, ⟨⟩⟩, ⟨⟩⟩
      exact ⟨hcontext, rfl⟩
    · rintro ⟨hcontext, rfl⟩
      exact ⟨_, ⟨_, ⟨hcontext, rfl⟩, rfl⟩, rfl⟩

/-! ### The objects of namespaces and schemas -/

/-- The object of a namespace, whatever it is. -/
def namespaceOf (ns : Namespace) : NamespaceObject where
  annotations := annotationMembers ns.annotations
  commonTypes := ns.commonTypes.entries.map commonTypeOf
  entityTypes := ns.entityTypes.entries.map entityTypeOf
  actions := ns.actions.entries.map actionOf

private theorem namespaceObject_eq_ok_iff {path : Pointer} {ns : Namespace}
    {o : NamespaceObject} : namespaceObject path ns = .ok o ↔
      (∀ p ∈ ns.types, Writable p.1 p.2) ∧ o = namespaceOf ns := by
  have hcommon {ms} := Except.mapM_eq_ok_iff (l := ns.commonTypes.entries) (r := ms)
    (f := fun e ↦ commonTypeMember (path.child "commonTypes") e.1 e.2)
    fun _ _ _ ↦ commonTypeMember_eq_ok_iff
  have hentity {ms} := Except.mapM_eq_ok_iff (l := ns.entityTypes.entries) (r := ms)
    (f := fun e ↦ entityTypeMember (path.child "entityTypes") e.1 e.2)
    fun _ _ _ ↦ entityTypeMember_eq_ok_iff
  have haction {ms} := Except.mapM_eq_ok_iff (l := ns.actions.entries) (r := ms)
    (f := fun e ↦ actionMember (path.child "actions") e.1 e.2)
    fun _ _ _ ↦ actionMember_eq_ok_iff
  simp only [namespaceObject, Except.bind_eq_ok_iff, hcommon, hentity, haction, Namespace.types,
    List.forall_mem_append, List.forall_mem_map, List.forall_mem_flatMap]
  constructor
  · rintro ⟨_, ⟨hc, rfl⟩, _, ⟨he, rfl⟩, _, ⟨ha, rfl⟩, ⟨⟩⟩
    exact ⟨⟨⟨hc, he⟩, ha⟩, rfl⟩
  · rintro ⟨⟨⟨hc, he⟩, ha⟩, rfl⟩
    exact ⟨_, ⟨hc, rfl⟩, _, ⟨he, rfl⟩, _, ⟨ha, rfl⟩, rfl⟩

/-- The member for a namespace, whatever it is. -/
def entryOf (e : Option Name × Namespace) : String × NamespaceObject :=
  (namespaceKey e.1, namespaceOf e.2)

/-- A schema has a document exactly if all types in it can be written, and the document has a member
for each namespace. -/
theorem ofSchema_eq_ok_iff {s : Schema} {d : Document} :
    ofSchema s = .ok d ↔ (∀ p ∈ s.types, Writable p.1 p.2) ∧
      d = (Table.ofList (s.namespaces.entries.map entryOf)).entries := by
  have hentries {ms} := Except.mapM_eq_ok_iff (l := s.namespaces.entries) (r := ms)
    (f := fun e ↦ do
      let o ← namespaceObject (Pointer.root.child (namespaceKey e.1)) e.2
      pure (namespaceKey e.1, o))
    (P := fun e ↦ ∀ p ∈ e.2.types, Writable p.1 p.2) (g := entryOf) (by
      rintro ⟨name, ns⟩ - m
      rw [Except.bind_eq_ok_iff]
      simp only [namespaceObject_eq_ok_iff]
      constructor
      · rintro ⟨_, ⟨h, rfl⟩, ⟨⟩⟩
        exact ⟨h, rfl⟩
      · rintro ⟨h, rfl⟩
        exact ⟨_, ⟨h, rfl⟩, rfl⟩)
  rw [ofSchema, Except.bind_eq_ok_iff]
  simp only [hentries, Schema.types, List.forall_mem_flatMap]
  constructor
  · rintro ⟨_, ⟨h, rfl⟩, ⟨⟩⟩
    exact ⟨h, rfl⟩
  · rintro ⟨h, rfl⟩
    exact ⟨_, ⟨h, rfl⟩, rfl⟩

/-! ### The depth of documents -/

private theorem isEmpty_of_leaf (r : TypeRef) :
    (refObject r).element = none ∧ (refObject r).attributes = none := by
  cases r with
  | common n =>
    rw [refObject]
    split <;> exact ⟨rfl, rfl⟩
  | _ => exact ⟨rfl, rfl⟩

mutual

private theorem fits_of_type : ∀ {t : TypeExpr TypeRef} {n : Nat} {o : TypeObject}, t.depth ≤ n →
    o.element = (objectOf t).element → o.attributes = (objectOf t).attributes →
      Fits (2 * n + 3) o.toJson
  | .leaf r, n, o, _, helement, hattributes => by
    obtain ⟨he, ha⟩ := isEmpty_of_leaf r
    rw [objectOf] at helement hattributes
    rw [he] at helement
    rw [ha] at hattributes
    refine fits_typeObject ?_ ?_ <;> simp [helement, hattributes]
  | .set element, n, o, h, helement, hattributes => by
    rw [TypeExpr.depth] at h
    obtain ⟨n, rfl⟩ : ∃ m, n = m + 1 := ⟨n - 1, by omega⟩
    have hfits : Fits (2 * n + 3) (objectOf element).toJson :=
      fits_of_type (Nat.le_of_succ_le_succ h) rfl rfl
    refine fits_typeObject (n := 2 * n + 2) ?_ ?_
    · simpa [helement, objectOf] using hfits.mono (by omega)
    · simp [hattributes, objectOf, TypeObject.ofType]
  | .record fields notes, n, o, h, helement, hattributes => by
    rw [TypeExpr.depth] at h
    obtain ⟨n, rfl⟩ : ∃ m, n = m + 1 := ⟨n - 1, by omega⟩
    have hfits := fits_of_fields (Nat.le_of_succ_le_succ h)
    refine fits_typeObject (n := 2 * n + 2) ?_ ?_
    · simp [helement, objectOf, TypeObject.ofType]
    · simpa [hattributes, objectOf] using hfits

private theorem fits_of_fields : ∀ {fields : Fields TypeRef} {n : Nat}, fields.depth ≤ n →
    ∀ m ∈ membersOf fields, Fits (2 * n + 3) m.2.toJson
  | .nil, _, _ => nofun
  | .cons key type required notes rest, n, h => by
    rw [Fields.depth, Nat.max_le] at h
    rw [membersOf, List.forall_mem_cons]
    exact ⟨fits_of_type h.1 rfl rfl, fits_of_fields h.2⟩

end

private theorem fits_entityTypeOf {e : Identifier × Declaration EntityType}
    (h : ∀ t ∈ entityTypeExprs e.2.body, Writable .inner t) :
    (∀ o ∈ (entityTypeOf e).2.shape, Fits (2 * TypeExpr.maxDepth + 3) o.toJson) ∧
      ∀ o ∈ (entityTypeOf e).2.tags, Fits (2 * TypeExpr.maxDepth + 3) o.toJson := by
  obtain ⟨id, ⟨body, notes, place⟩⟩ := e
  cases body with
  | enumerated first others => exact ⟨nofun, nofun⟩
  | standard memberOf shape tags =>
    simp only [entityTypeExprs, List.forall_mem_append, Option.mem_toList] at h
    constructor
    · intro o ho
      obtain ⟨t, ht, rfl⟩ := Option.map_eq_some_iff.mp ho
      exact fits_of_type (h.1 t ht).depth rfl rfl
    · intro o ho
      obtain ⟨t, ht, rfl⟩ := Option.map_eq_some_iff.mp ho
      exact fits_of_type (h.2 t ht).depth rfl rfl

private theorem fits_actionOf {e : String × Declaration Action}
    (h : ∀ t ∈ actionTypeExprs e.2.body, Writable .inner t) :
    ∀ a ∈ (actionOf e).2.appliesTo, ∀ o ∈ a.context,
      Fits (2 * TypeExpr.maxDepth + 3) o.toJson := by
  intro a ha o ho
  obtain ⟨block, hblock, rfl⟩ := Option.map_eq_some_iff.mp ha
  obtain ⟨t, ht, rfl⟩ := Option.map_eq_some_iff.mp ho
  refine fits_of_type (h t ?_).depth rfl rfl
  rw [actionTypeExprs, hblock, Option.bind_some, Option.mem_toList]
  exact ht

private theorem typesFit_namespaceOf {ns : Namespace} (h : ∀ p ∈ ns.types, Writable p.1 p.2) :
    (namespaceOf ns).TypesFit (2 * TypeExpr.maxDepth + 3) := by
  simp only [Namespace.types, List.forall_mem_append, List.forall_mem_map,
    List.forall_mem_flatMap] at h
  obtain ⟨⟨hcommon, hentity⟩, haction⟩ := h
  constructor
  · intro m hm
    obtain ⟨e, he, rfl⟩ := List.mem_map.mp hm
    exact fits_of_type (hcommon e he).depth rfl rfl
  · intro m hm
    obtain ⟨e, he, rfl⟩ := List.mem_map.mp hm
    exact (fits_entityTypeOf (hentity e he)).1
  · intro m hm
    obtain ⟨e, he, rfl⟩ := List.mem_map.mp hm
    exact (fits_entityTypeOf (hentity e he)).2
  · intro m hm
    obtain ⟨e, he, rfl⟩ := List.mem_map.mp hm
    exact fits_actionOf (haction e he)

/-- The keys of namespaces tell them apart. -/
theorem namespaceKey_inj {a b : Option Name} (h : namespaceKey a = namespaceKey b) : a = b := by
  cases a with
  | none =>
    cases b with
    | none => rfl
    | some n => exact absurd h.symm n.text_ne_empty
  | some m =>
    cases b with
    | none => exact absurd h m.text_ne_empty
    | some n => exact congrArg some (Name.text_inj h)

/-- The members of the document of a schema are those of its namespaces, in the order of their
keys. -/
theorem perm_ofSchema (s : Schema) :
    (Table.ofList (s.namespaces.entries.map entryOf)).entries.Perm
      (s.namespaces.entries.map entryOf) := by
  apply Table.perm_entries_ofList
  have hkeys : (s.namespaces.entries.map Prod.fst).Nodup := s.namespaces.keys_nodup
  rw [List.map_map]
  rw [List.nodup_iff_pairwise_ne, List.pairwise_map] at hkeys ⊢
  exact hkeys.imp fun hne heq ↦ hne (namespaceKey_inj heq)

/-- The document of a schema is not deeper than a reader of JSON goes. -/
theorem fits_ofSchema {s : Schema} {d : Document} (h : ofSchema s = .ok d) :
    Fits Json.maxDepth (toJson d) := by
  obtain ⟨hwritable, rfl⟩ := ofSchema_eq_ok_iff.mp h
  simp only [Schema.types, List.forall_mem_flatMap] at hwritable
  refine (fits_document (n := 2 * TypeExpr.maxDepth + 2) fun m hm ↦ ?_).mono (by decide)
  obtain ⟨e, he, rfl⟩ := List.mem_map.mp ((perm_ofSchema s).mem_iff.mp hm)
  exact typesFit_namespaceOf (hwritable e he)

end Document

end PolicySchema
