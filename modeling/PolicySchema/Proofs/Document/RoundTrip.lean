import PolicySchema.Proofs.Document.Written

/-!
# Reading the document that was written

The JSON text of a schema is read as the schema, except for common types that are named like the
fixed values of `type`.
-/

namespace PolicySchema

open Json
open Text (entityTypeExprs actionTypeExprs)

/-- The reference that is read from a document where one is written. -/
def TypeRef.documented : TypeRef → TypeRef
  | .common n => if Document.fixedTypes.contains n.text then .entityOrCommon n else .common n
  | r => r

/-- A reference to an extension type names a known one. -/
def TypeRef.IsKnown : TypeRef → Prop
  | .extension id => isKnownExtension id.text = true
  | _ => True

namespace Document

/-! ### References -/

/-- A type object has the parts of a type. What it declares may have annotations of its own, and the
attribute that it is may be optional. -/
structure Shows (o : TypeObject) (t : TypeExpr TypeRef) : Prop where
  type : o.type = (objectOf t).type
  element : o.element = (objectOf t).element
  attributes : o.attributes = (objectOf t).attributes
  name : o.name = (objectOf t).name

variable {o : TypeObject} {place : Place} {path : Pointer}

private theorem ne_of_not_fixed {name : String} (h : ¬ fixedTypes.contains name = true) :
    ∀ text ∈ fixedTypes, name ≠ text := by
  rintro text htext rfl
  exact h (List.contains_iff_mem.mpr htext)

private theorem ofName?_eq_none {name : String} (h : ∀ text ∈ fixedTypes, name ≠ text) :
    Primitive.ofName? name = none := by
  simp only [fixedTypes, List.forall_mem_cons] at h
  simp [Primitive.ofName?, h]

private theorem refAt_of_shows {r : TypeRef} (h : Shows o (.leaf r)) (hknown : r.IsKnown)
    (path : Pointer) : refAt path o = .ok r.documented := by
  obtain ⟨htype, -, -, hname⟩ := h
  rw [objectOf] at htype hname
  have named {text : String} (hn : o.name = some text) : nameFieldAt path o = .ok text := by
    rw [nameFieldAt, hn]
  have entityOrCommon {n : Name} (ht : o.type = "EntityOrCommon") (hn : o.name = some n.text) :
      refAt path o = .ok (.entityOrCommon n) := by
    rw [refAt, ht, named hn]
    simp only [bind, Except.bind, nameAt_text]
    rfl
  cases r with
  | primitive p =>
    have hp : o.type = primitiveType p := htype
    rw [refAt, hp]
    cases p <;> rfl
  | entity n =>
    have hentity : o.type = "Entity" := htype
    rw [refAt, if_pos hentity, named hname]
    simp only [bind, Except.bind, nameAt_text]
    rfl
  | entityOrCommon n => exact entityOrCommon htype hname
  | extension id =>
    have hextension : o.type = "Extension" := htype
    have hid : isKnownExtension id.text = true := hknown
    rw [refAt, hextension, named hname]
    simp only [bind, Except.bind, hid, identifierAt, Identifier.parse_text]
    rfl
  | common n =>
    rw [refObject] at htype hname
    rw [TypeRef.documented]
    by_cases hfixed : fixedTypes.contains n.text = true
    · rw [if_pos hfixed] at htype hname ⊢
      exact entityOrCommon htype hname
    · rw [if_neg hfixed] at htype hname ⊢
      have hn : o.type = n.text := htype
      have hne := ne_of_not_fixed hfixed
      rw [refAt, hn, if_neg (hne "Entity" (by decide)), if_neg (hne "EntityOrCommon" (by decide)),
        if_neg (hne "Extension" (by decide)), ofName?_eq_none hne]
      simp only [nameAt_text]
      rfl

/-! ### Types -/

private theorem givenFields_objectOf (t : TypeExpr TypeRef) :
    ∀ field ∈ givenFields (objectOf t), field ∈ fieldsFor (objectOf t).type := by
  cases t with
  | set element => simp [objectOf, givenFields, fieldsFor, TypeObject.ofType]
  | record fields notes => simp [objectOf, givenFields, fieldsFor, TypeObject.ofType]
  | leaf r =>
    cases r with
    | primitive p => simp [objectOf, refObject, givenFields, TypeObject.ofType]
    | entity n => simp [objectOf, refObject, givenFields, fieldsFor, TypeObject.ofType]
    | entityOrCommon n => simp [objectOf, refObject, givenFields, fieldsFor, TypeObject.ofType]
    | extension id => simp [objectOf, refObject, givenFields, fieldsFor, TypeObject.ofType]
    | common n =>
      rw [objectOf, refObject]
      split <;> simp [givenFields, fieldsFor, TypeObject.ofType]

private theorem annotations_refObject (r : TypeRef) : (refObject r).annotations = [] := by
  cases r with
  | common n =>
    rw [refObject]
    split <;> rfl
  | _ => rfl

-- A type object passes the check of its fields if it is optional only as an attribute, and has
-- annotations only as a declaration or a record.
private theorem vetObject_of_shows {t : TypeExpr TypeRef} (h : Shows o t)
    (hrequired : o.required.isSome = true → place = .attribute)
    (hannotations : place.isDeclaring = false → o.annotations = (objectOf t).annotations) :
    vetObject place path o = .ok () := by
  have hgiven : givenFields o = givenFields (objectOf t) := by
    rw [givenFields, givenFields, h.element, h.attributes, h.name]
  have hfind : (givenFields o).find? (fun field ↦ !(fieldsFor o.type).contains field) = none := by
    rw [List.find?_eq_none, hgiven, h.type]
    intro field hfield
    simp [givenFields_objectOf t field hfield]
  have hreq : (o.required.isSome && place != .attribute) = false := by
    cases ho : o.required.isSome with
    | false => rfl
    | true => rw [hrequired ho]; rfl
  have hnotes : (!o.annotations.isEmpty && !place.isDeclaring && o.type != "Record") = false := by
    cases hplace : place.isDeclaring with
    | true => simp
    | false =>
      rw [hannotations hplace, h.type]
      cases t with
      | leaf r => rw [objectOf, annotations_refObject]; rfl
      | set element => rfl
      | record fields notes => simp [objectOf, TypeObject.ofType]
  rw [vetObject, hreq, hfind, hnotes]
  rfl

private def fieldOf (e : String × Attribute TypeRef) : String × TypeObject :=
  (e.1, { objectOf e.2.type with
    required := if e.2.required then none else some false
    annotations := annotationMembers e.2.annotations })

private theorem membersOf_eq (fields : Fields TypeRef) :
    membersOf fields = fields.toList.map fieldOf := by
  cases fields with
  | nil => rfl
  | cons _ _ _ _ rest => exact congrArg (List.cons _) (membersOf_eq rest)

-- What is needed for a type to be read from an object at a place.
private structure Readable (place : Place) (o : TypeObject) (t : TypeExpr TypeRef) : Prop where
  shows : Shows o t
  required : o.required.isSome = true → place = .attribute
  annotations : place.isDeclaring = false → o.annotations = (objectOf t).annotations
  own : place.isDeclaring = true → ¬ t.IsAnnotatedRecord
  inside : ¬ t.HasAnnotatedAttribute
  wellFormed : t.WellFormed TypeRef.IsKnown

private theorem shows_fieldOf (e : String × Attribute TypeRef) : Shows (fieldOf e).2 e.2.type :=
  ⟨rfl, rfl, rfl, rfl⟩

private theorem attributeAt_fieldOf {inner : TypeReader} {e : String × Attribute TypeRef}
    (h : inner .attribute path (fieldOf e).2 = .ok (e.2.type.mapRefs TypeRef.documented)) :
    attributeAt inner path e.1 (fieldOf e).2 =
      .ok (e.1, { e.2 with type := e.2.type.mapRefs TypeRef.documented }) := by
  obtain ⟨key, type, required, notes⟩ := e
  have hrequired : (fieldOf (key, ⟨type, required, notes⟩)).2.required.getD true = required := by
    cases required <;> rfl
  rw [attributeAt, hrequired, h, fieldOf]
  simp only [annotationsAt_of_members]
  rfl

private theorem recordAt_of_shows {inner : TypeReader} {fields : Fields TypeRef}
    {notes : Annotations} (h : Shows o (.record fields notes))
    (hfields : ∀ e ∈ fields.toList, ∀ path, inner .attribute path (fieldOf e).2 =
      .ok (e.2.type.mapRefs TypeRef.documented))
    (hsorted : Ascending fields.toList)
    (hannotations : place.isDeclaring = false → o.annotations = annotationMembers notes)
    (hown : place.isDeclaring = true → notes = ∅) :
    recordAt inner place path o =
      .ok (.record (fields.mapRefs TypeRef.documented) notes) := by
  have hattributes : o.attributes = some (fields.toList.map fieldOf) := by
    rw [h.attributes, ← membersOf_eq, objectOf]
  have hkeys : (fields.toList.map fun e ↦ (fieldOf e).1).Nodup :=
    Table.keys_nodup ⟨fields.toList, hsorted⟩
  obtain ⟨bs, hbs, hperm⟩ := membersAt_of_ok (path.child "attributes") (attributeAt inner)
    (.refl (fields.toList.map fieldOf)) hkeys fun e he ↦ attributeAt_fieldOf (hfields e he _)
  rw [← Fields.toList_mapRefs] at hperm
  have htable := Table.ofList_of_perm
    (t := ⟨_, Fields.ascending_mapRefs (f := TypeRef.documented) hsorted⟩) hperm
  rw [recordAt, hattributes]
  simp only [hbs, bind, Except.bind, htable, Fields.ofTable, Fields.ofList_toList]
  cases hplace : place.isDeclaring with
  | true =>
    rw [hown hplace]
    rfl
  | false =>
    rw [hannotations hplace, annotationsAt_of_members]
    rfl

private theorem levelAt_of_readable {t : TypeExpr TypeRef} (inner? : Option TypeReader)
    (h : Readable place o t) : levelAt inner? place path o =
      if o.type = "Set" || o.type = "Record" then
        match inner? with
        | none => failAt path .tooDeep
        | some inner =>
          if o.type = "Set" then setAt inner path o else recordAt inner place path o
      else .leaf <$> refAt path o := by
  unfold levelAt
  rw [vetObject_of_shows h.shows h.required h.annotations]
  rfl

private theorem ne_set_record (r : TypeRef) :
    (refObject r).type ≠ "Set" ∧ (refObject r).type ≠ "Record" := by
  cases r with
  | primitive p => cases p <;> exact ⟨by decide, by decide⟩
  | common n =>
    rw [refObject]
    split
    · exact ⟨by simp [TypeObject.ofType], by simp [TypeObject.ofType]⟩
    · next hfixed =>
      have hne := ne_of_not_fixed hfixed
      exact ⟨hne "Set" (by decide), hne "Record" (by decide)⟩
  | _ => exact ⟨by simp [refObject, TypeObject.ofType], by simp [refObject, TypeObject.ofType]⟩

private theorem required_objectOf (t : TypeExpr TypeRef) : (objectOf t).required = none := by
  cases t with
  | leaf r =>
    cases r with
    | common n =>
      rw [objectOf, refObject]
      split <;> rfl
    | _ => rfl
  | _ => rfl

private theorem readable_objectOf {t : TypeExpr TypeRef} (hinside : ¬ t.HasAnnotatedAttribute)
    (hwf : t.WellFormed TypeRef.IsKnown) : Readable .inner (objectOf t) t where
  shows := ⟨rfl, rfl, rfl, rfl⟩
  required h := by
    rw [required_objectOf] at h
    cases h
  annotations _ := rfl
  own h := absurd h (by decide)
  inside := hinside
  wellFormed := hwf

mutual

private theorem typeUpTo_of_readable : ∀ {t : TypeExpr TypeRef} {room : Nat} {o : TypeObject}
    {place : Place} (path : Pointer), t.depth ≤ room → Readable place o t →
      typeUpTo room place path o = .ok (t.mapRefs TypeRef.documented)
  | .leaf r, room, o, place, path, _, h => by
    have hne := ne_set_record r
    have htype : o.type = (refObject r).type := h.shows.type
    have hlevel (inner? : Option TypeReader) : levelAt inner? place path o =
        .ok (.leaf r.documented) := by
      rw [levelAt_of_readable inner? h, htype, refAt_of_shows h.shows h.wellFormed]
      simp only [hne.1, hne.2, decide_false, Bool.or_self, Bool.false_eq_true, if_false]
      rfl
    cases room with
    | zero => exact hlevel none
    | succ room => exact hlevel (some (typeUpTo room))
  | .set element, room, o, place, path, hdepth, h => by
    have htype : o.type = "Set" := h.shows.type
    have helement : o.element = some (objectOf element) := h.shows.element
    cases room with
    | zero => simp [TypeExpr.depth] at hdepth
    | succ room =>
      have hreadable : Readable .inner (objectOf element) element :=
        readable_objectOf h.inside h.wellFormed
      have hinner := typeUpTo_of_readable (path.child "element") (Nat.le_of_succ_le_succ hdepth)
        hreadable
      rw [typeUpTo, levelAt_of_readable _ h, htype]
      simp only [setAt, helement, hinner]
      rfl
  | .record fields notes, room, o, place, path, hdepth, h => by
    have htype : o.type = "Record" := h.shows.type
    cases room with
    | zero => simp [TypeExpr.depth] at hdepth
    | succ room =>
      have hfields := typeUpTo_fieldOf (Nat.le_of_succ_le_succ hdepth) h.inside h.wellFormed.2
      have hown : place.isDeclaring = true → notes = ∅ := fun hplace ↦
        Classical.not_not.mp (h.own hplace)
      rw [typeUpTo, levelAt_of_readable _ h, htype]
      exact recordAt_of_shows h.shows hfields h.wellFormed.1 h.annotations hown

private theorem typeUpTo_fieldOf : ∀ {fields : Fields TypeRef} {room : Nat},
    fields.depth ≤ room → ¬ fields.HasAnnotatedAttribute → fields.WellFormed TypeRef.IsKnown →
      ∀ e ∈ fields.toList, ∀ path, typeUpTo room .attribute path (fieldOf e).2 =
        .ok (e.2.type.mapRefs TypeRef.documented)
  | .nil, _, _, _, _ => nofun
  | .cons key type required notes rest, room, hdepth, hinside, hwf => by
    rw [Fields.depth, Nat.max_le] at hdepth
    rw [Fields.HasAnnotatedAttribute, not_or, not_or] at hinside
    rw [Fields.toList, List.forall_mem_cons]
    refine ⟨fun path ↦ ?_, typeUpTo_fieldOf hdepth.2 hinside.2.2 hwf.2⟩
    exact typeUpTo_of_readable path hdepth.1 {
      shows := shows_fieldOf _
      required := fun _ ↦ rfl
      annotations := fun h ↦ absurd h (by decide)
      own := fun _ ↦ hinside.1
      inside := hinside.2.1
      wellFormed := hwf.1 }

end

/-! ### Declarations -/

private def Returns (t : TypeExpr TypeRef) : Prop :=
  Writable .inner t ∧ t.WellFormed TypeRef.IsKnown

private theorem optionalTypeAt_of_returns (path : Pointer) (key : String)
    {t : Option (TypeExpr TypeRef)} (h : ∀ u ∈ t, Returns u) :
    optionalTypeAt path key (t.map objectOf) = .ok (t.map (·.mapRefs TypeRef.documented)) := by
  cases t with
  | none => rfl
  | some t =>
    obtain ⟨hwritable, hwf⟩ := h t rfl
    have hread := typeUpTo_of_readable (path.child key) hwritable.depth
      (readable_objectOf hwritable.inside hwf)
    rw [Option.map_some, optionalTypeAt, typeAt, hread]
    rfl

private theorem shapeAt_of_returns (path : Pointer) (shape : Option (RecordType TypeRef))
    (h : ∀ u ∈ shape.map RecordType.toType, Returns u) :
    shapeAt path ((shape.map RecordType.toType).map objectOf) =
      .ok (shape.map (·.mapRefs TypeRef.documented)) := by
  rw [shapeAt, optionalTypeAt_of_returns path "shape" h]
  cases shape <;> rfl

private theorem commonTypeAt_of_readable (path : Pointer)
    {e : Identifier × Declaration (TypeExpr TypeRef)} (h : Writable .commonType e.2.body)
    (hwf : e.2.body.WellFormed TypeRef.IsKnown) :
    commonTypeAt path (commonTypeOf e).1 (commonTypeOf e).2 =
      .ok (e.1, (e.2.map (·.mapRefs TypeRef.documented)).placeless) := by
  have hreadable : Readable .commonType (commonTypeOf e).2 e.2.body := {
    shows := ⟨rfl, rfl, rfl, rfl⟩
    required := fun h ↦ by
      rw [commonTypeOf] at h
      simp [required_objectOf] at h
    annotations := fun h ↦ absurd h (by decide)
    own := h.own
    inside := h.inside
    wellFormed := hwf }
  have hread := typeUpTo_of_readable path h.depth hreadable
  rw [commonTypeAt, typeAt, hread]
  simp only [commonTypeOf, identifierAt, Identifier.parse_text, annotationsAt_of_members]
  rfl

private theorem entityTypeAt_of_returns (path : Pointer) {e : Identifier × Declaration EntityType}
    (h : ∀ t ∈ entityTypeExprs e.2.body, Writable .inner t)
    (hwf : e.2.body.WellFormed TypeRef.IsKnown) :
    entityTypeAt path (entityTypeOf e).1 (entityTypeOf e).2 =
      .ok (e.1, (e.2.map (·.mapRefs TypeRef.documented)).placeless) := by
  have hbody : entityBodyAt path (entityTypeOf e).2 =
      .ok (e.2.body.mapRefs TypeRef.documented) := by
    obtain ⟨id, ⟨body, notes, place⟩⟩ := e
    cases body with
    | enumerated first others =>
      have hvalues : firstRepeated? [] (first :: others) = none :=
        firstRepeated?_eq_none_iff.mpr ⟨hwf, by simp⟩
      simp only [entityTypeOf, entityBodyAt, conflictingField?, enumAt, hvalues]
      rfl
    | standard memberOf shape tags =>
      simp only [entityTypeExprs, List.forall_mem_append, Option.mem_toList] at h
      have hshape := shapeAt_of_returns path shape fun u hu ↦ ⟨h.1 u hu, by
        obtain ⟨r, hr, rfl⟩ := Option.map_eq_some_iff.mp hu
        exact hwf.1 r hr⟩
      have htags := optionalTypeAt_of_returns path "tags" (t := tags) fun u hu ↦
        ⟨h.2 u hu, hwf.2 u hu⟩
      have hparents := itemsAt_nonemptyList nameAt_text (path.child "memberOfTypes") memberOf
      simp only [entityTypeOf, entityBodyAt, namesAt, hparents, hshape, htags]
      rfl
  have hkey : (entityTypeOf e).1 = e.1.text := rfl
  have hnotes : (entityTypeOf e).2.annotations = annotationMembers e.2.annotations := by
    rw [entityTypeOf]
    cases e.2.body <;> rfl
  rw [entityTypeAt, hbody, hkey, hnotes, annotationsAt_of_members, identifierAt,
    Identifier.parse_text]
  rfl

private theorem actionRefAt_of_ref (path : Pointer) (r : ActionRef) :
    actionRefAt path ⟨r.type.map Name.text, r.id⟩ = .ok r := by
  obtain ⟨type, id⟩ := r
  cases type with
  | none => rfl
  | some n =>
    rw [actionRefAt, Option.map_some]
    simp only [nameAt_text]
    rfl

private theorem actionAt_of_returns (path : Pointer) {e : String × Declaration Action}
    (h : ∀ t ∈ actionTypeExprs e.2.body, Writable .inner t)
    (hwf : e.2.body.WellFormed TypeRef.IsKnown) :
    actionAt path (actionOf e).1 (actionOf e).2 =
      .ok (e.1, (e.2.map (·.mapRefs TypeRef.documented)).placeless) := by
  obtain ⟨id, ⟨⟨memberOf, appliesTo⟩, notes, place⟩⟩ := e
  have hrefs := itemsAt_nonemptyList actionRefAt_of_ref (path.child "memberOf") memberOf
  have happliesTo : appliesToAt (path.child "appliesTo") (appliesTo.map fun a ↦
      ⟨some (a.principals.map Name.text), some (a.resources.map Name.text),
        a.context.map objectOf⟩) = .ok (appliesTo.map (·.mapRefs TypeRef.documented)) := by
    cases appliesTo with
    | none => rfl
    | some block =>
      have hcontext := optionalTypeAt_of_returns (path.child "appliesTo") "context"
        (t := block.context) fun u hu ↦ ⟨h u (by simpa [actionTypeExprs] using hu),
          hwf block rfl u hu⟩
      rw [Option.map_some, appliesToAt]
      simp only [namesAt, Option.getD_some, itemsAt_of_ok nameAt_text, hcontext]
      rfl
  rw [actionAt, actionOf]
  simp only [hrefs, happliesTo, annotationsAt_of_members]
  rfl

/-! ### Namespaces and schemas -/

private theorem placeless_mapRefs (ns : Namespace) :
    (ns.mapRefs TypeRef.documented).placeless = ⟨ns.annotations,
      ns.commonTypes.map fun d ↦ (d.map (·.mapRefs TypeRef.documented)).placeless,
      ns.entityTypes.map fun d ↦ (d.map (·.mapRefs TypeRef.documented)).placeless,
      ns.actions.map fun d ↦ (d.map (·.mapRefs TypeRef.documented)).placeless⟩ := by
  simp only [Namespace.placeless, Namespace.mapRefs, Table.map_map]
  rfl

private theorem namespaceAt_of_writable (path : Pointer) {ns : Namespace}
    (h : ∀ p ∈ ns.types, Writable p.1 p.2) (hwf : ns.WellFormed TypeRef.IsKnown) :
    namespaceAt path (namespaceOf ns) = .ok (ns.mapRefs TypeRef.documented).placeless := by
  simp only [Namespace.types, List.forall_mem_append, List.forall_mem_map,
    List.forall_mem_flatMap] at h
  obtain ⟨⟨hcommon, hentity⟩, haction⟩ := h
  obtain ⟨cs, hcs, hcommonTypes⟩ := membersAt_of_table (path.child "commonTypes") commonTypeAt
    (fun d ↦ (d.map (·.mapRefs TypeRef.documented)).placeless)
    (.refl (ns.commonTypes.entries.map commonTypeOf)) (fun _ _ ↦ Identifier.ext)
    fun e he ↦ commonTypeAt_of_readable _ (hcommon e he) (hwf.commonTypes e.1 e.2 he)
  obtain ⟨es, hes, hentityTypes⟩ := membersAt_of_table (path.child "entityTypes") entityTypeAt
    (fun d ↦ (d.map (·.mapRefs TypeRef.documented)).placeless)
    (.refl (ns.entityTypes.entries.map entityTypeOf)) (fun _ _ ↦ Identifier.ext)
    fun e he ↦ entityTypeAt_of_returns _ (hentity e he) (hwf.entityTypes e.1 e.2 he)
  obtain ⟨as, has, hactions⟩ := membersAt_of_table (path.child "actions") actionAt
    (fun d ↦ (d.map (·.mapRefs TypeRef.documented)).placeless)
    (.refl (ns.actions.entries.map actionOf)) (fun _ _ h ↦ h)
    fun e he ↦ actionAt_of_returns _ (haction e he) (hwf.actions e.1 e.2 he)
  rw [namespaceAt, namespaceOf]
  simp only [annotationsAt_of_members, hcs, hes, has, placeless_mapRefs, ← hcommonTypes,
    ← hentityTypes, ← hactions]
  rfl

private theorem entryAt_of_writable (path : Pointer) {e : Option Name × Namespace}
    (h : ∀ p ∈ e.2.types, Writable p.1 p.2) (hwf : e.2.WellFormed TypeRef.IsKnown) :
    entryAt path (entryOf e).1 (entryOf e).2 =
      .ok (e.1, (e.2.mapRefs TypeRef.documented).placeless) := by
  have hname : namespaceNameAt path (entryOf e).1 = .ok e.1 := by
    obtain ⟨name, ns⟩ := e
    cases name with
    | none => rfl
    | some n =>
      have hempty : n.text.isEmpty = false := by
        rw [← Bool.not_eq_true, String.isEmpty_iff]
        exact n.text_ne_empty
      change namespaceNameAt path n.text = _
      rw [namespaceNameAt, hempty, nameAt_text]
      rfl
  rw [entryAt, hname, entryOf, namespaceAt_of_writable path h hwf]
  rfl

/-- The document of a schema is read as the schema without places, with common types named like
fixed values of `type` made open. -/
theorem toSchema_of_ofSchema {s : Schema} {d : Document} (h : ofSchema s = .ok d)
    (hwf : s.WellFormed TypeRef.IsKnown) :
    toSchema d = .ok (s.mapRefs TypeRef.documented).placeless := by
  obtain ⟨hwritable, rfl⟩ := ofSchema_eq_ok_iff.mp h
  simp only [Schema.types, List.forall_mem_flatMap] at hwritable
  obtain ⟨bs, hbs, htable⟩ := membersAt_of_table .root entryAt
    (fun ns ↦ (ns.mapRefs TypeRef.documented).placeless) (perm_ofSchema s)
    (fun _ _ ↦ namespaceKey_inj)
    fun e he ↦ entryAt_of_writable _ (hwritable e he) (hwf e.1 e.2 he)
  rw [toSchema, hbs]
  simp only [bind, Except.bind, htable, Schema.placeless, Schema.mapRefs, Table.map_map]
  rfl

/-! ### Texts -/

private theorem write_eq_ok_iff {s : Schema} {text : String} : write s = .ok text ↔
    ∃ d, ofSchema s = .ok d ∧ writeValue s = .ok (toJson d) ∧ (toJson d).pretty = text := by
  rw [write, Except.bind_eq_ok_iff]
  simp only [writeValue, Except.bind_eq_ok_iff]
  constructor
  · rintro ⟨_, ⟨d, hd, ⟨⟩⟩, ⟨⟩⟩
    exact ⟨d, hd, ⟨d, hd, rfl⟩, rfl⟩
  · rintro ⟨d, hd, -, rfl⟩
    exact ⟨_, ⟨d, hd, rfl⟩, rfl⟩

/-- A schema of types that can be written is written, and read as itself but for places and for
common types named like fixed values of `type`. -/
theorem exists_written {s : Schema} (h : ∀ p ∈ s.types, Writable p.1 p.2)
    (hwf : s.WellFormed TypeRef.IsKnown) : ∃ text, write s = .ok text ∧
      read text.toList = .ok (s.mapRefs TypeRef.documented).placeless := by
  have hd := ofSchema_eq_ok_iff.mpr ⟨h, rfl⟩
  have hwrite := write_eq_ok_iff.mpr ⟨_, hd, by rw [writeValue, hd]; rfl, rfl⟩
  refine ⟨_, hwrite, ?_⟩
  have hfits := fits_ofSchema hd
  rw [read, Json.read?_pretty hfits.1 hfits.2]
  simp only [readValue, ofJson?_document, toSchema_of_ofSchema hd hwf]

private theorem place_of_mem_types {s : Schema} {p : Place × TypeExpr TypeRef}
    (h : p ∈ s.types) : p.1.isDeclaring = true ↔ p.1 = .commonType := by
  obtain ⟨e, -, h⟩ := List.mem_flatMap.mp h
  simp only [Namespace.types, List.mem_append, List.mem_map, List.mem_flatMap] at h
  rcases h with (⟨_, -, rfl⟩ | ⟨_, -, _, -, rfl⟩) | ⟨_, -, _, -, rfl⟩ <;>
    simp [Place.isDeclaring]

-- Some type cannot be written if a common type is directly a record with annotations of its own, an
-- attribute is, or a type is too deep.
private theorem not_writable_iff {s : Schema} : ¬ (∀ p ∈ s.types, Writable p.1 p.2) ↔
    (∃ t, (.commonType, t) ∈ s.types ∧ t.IsAnnotatedRecord) ∨
      (∃ p ∈ s.types, p.2.HasAnnotatedAttribute) ∨
      ∃ p ∈ s.types, TypeExpr.maxDepth < p.2.depth := by
  constructor
  · intro h
    simp only [Classical.not_forall] at h
    obtain ⟨p, hp, h⟩ := h
    by_cases hinside : p.2.HasAnnotatedAttribute
    · exact .inr (.inl ⟨p, hp, hinside⟩)
    · by_cases hdepth : TypeExpr.maxDepth < p.2.depth
      · exact .inr (.inr ⟨p, hp, hdepth⟩)
      · left
        apply Classical.byContradiction
        intro hown
        refine h ⟨Nat.le_of_not_lt hdepth, fun hplace hrecord ↦ hown ⟨p.2, ?_, hrecord⟩, hinside⟩
        rw [← (place_of_mem_types hp).mp hplace]
        exact hp
  · rintro (⟨t, ht, hrecord⟩ | ⟨p, hp, hinside⟩ | ⟨p, hp, hdepth⟩) h
    · exact (h _ ht).own rfl hrecord
    · exact (h p hp).inside hinside
    · exact absurd (h p hp).depth (Nat.not_le_of_lt hdepth)

/-- A schema agrees with itself without its places. -/
theorem agrees_placeless (s : Schema) : s.placeless.agrees s = true := by
  have hnamespace (ns : Namespace) : ns.placeless.placeless = ns.placeless := by
    simp only [Namespace.placeless, Table.map_map]
    rfl
  have hplaceless : s.placeless.placeless = s.placeless := by
    simp only [Schema.placeless, Table.map_map, Function.comp_def, hnamespace]
  simp [Schema.agrees, hplaceless]

/-- Writing a schema as JSON fails exactly if a common type or an attribute is directly a record
with annotations of its own, or a type is too deep. What is written can be read, and is read as the
schema, but for places, in which a common type that is named like a fixed value of `type` is one
that may be an entity type. -/
theorem read_written {s : Schema} (hwf : s.WellFormed TypeRef.IsKnown) :
    ((∃ e, write s = .error e) ↔
      (∃ t, (.commonType, t) ∈ s.types ∧ t.IsAnnotatedRecord) ∨
        (∃ p ∈ s.types, p.2.HasAnnotatedAttribute) ∨
        ∃ p ∈ s.types, TypeExpr.maxDepth < p.2.depth) ∧
    ∀ text, write s = .ok text →
      (∃ j, writeValue s = .ok j ∧ j.pretty = text ∧ j.depth ≤ Json.maxDepth) ∧
        ∃ s', read text.toList = .ok s' ∧ s'.agrees (s.mapRefs TypeRef.documented) = true := by
  constructor
  · rw [← not_writable_iff]
    cases hwrite : write s with
    | ok text =>
      obtain ⟨d, hd, -⟩ := write_eq_ok_iff.mp hwrite
      simpa using (ofSchema_eq_ok_iff.mp hd).1
    | error e =>
      refine ⟨fun _ hwritable ↦ ?_, fun _ ↦ ⟨e, rfl⟩⟩
      have hd := ofSchema_eq_ok_iff.mpr ⟨hwritable, rfl⟩
      have hok := write_eq_ok_iff.mpr ⟨_, hd, by rw [writeValue, hd]; rfl, rfl⟩
      rw [hwrite] at hok
      cases hok
  · intro text hwrite
    obtain ⟨d, hd, hvalue, rfl⟩ := write_eq_ok_iff.mp hwrite
    have hfits := fits_ofSchema hd
    refine ⟨⟨toJson d, hvalue, rfl, hfits.2⟩, (s.mapRefs TypeRef.documented).placeless, ?_,
      agrees_placeless _⟩
    rw [read, Json.read?_pretty hfits.1 hfits.2]
    simp only [readValue, ofJson?_document, toSchema_of_ofSchema hd hwf]

/-- A common type that is named like a fixed value of `type`, as sets of itself: its name is read as
one that may be an entity type. -/
theorem read_written_fixed :
    let record : Identifier := ⟨"Record", by decide⟩
    let body : TypeExpr TypeRef := .set (.leaf (.common (.bare record)))
    let s : Schema := ⟨.ofList [(none, { Namespace.empty with
      commonTypes := .ofList [(record, ⟨body, ∅, none⟩)] })]⟩
    let text := "\x7b\n  \"\": \x7b\n    \"actions\": \x7b\x7d,\n    \"commonTypes\": \x7b\n" ++
      "      \"Record\": \x7b\n        \"element\": \x7b\n          \"name\": \"Record\",\n" ++
      "          \"type\": \"EntityOrCommon\"\n        \x7d,\n        \"type\": \"Set\"\n" ++
      "      \x7d\n    \x7d,\n    \"entityTypes\": \x7b\x7d\n  \x7d\n\x7d"
    write s = .ok text ∧ s.mapRefs TypeRef.documented ≠ s ∧
      ∃ s', read text.toList = .ok s' ∧ s'.agrees (s.mapRefs TypeRef.documented) = true := by
  intro record body s text
  have hwrite : write s = .ok text := by decide +kernel
  have hwf : s.WellFormed TypeRef.IsKnown := by
    intro name ns h
    obtain ⟨rfl, rfl⟩ := Prod.mk.inj (List.mem_singleton.mp h)
    refine ⟨fun key d hd ↦ ?_, nofun, nofun⟩
    obtain ⟨rfl, rfl⟩ := Prod.mk.inj (List.mem_singleton.mp hd)
    trivial
  exact ⟨hwrite, by decide, ((read_written hwf).2 text hwrite).2⟩

end Document

end PolicySchema
