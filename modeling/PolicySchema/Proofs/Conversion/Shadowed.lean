import PolicySchema.Proofs.Resolve.Collected
import PolicySchema.Proofs.Text.NormalForm

/-!
# References that the text form shadows

In the text form a name in a type is looked up as that of a built-in type, of a common type and of
an entity type. A reference that must be to an entity type or to a common type may so be read as one
to something else (`IsShadowed`). All other references denote what they did
(`not_isShadowed_iff`).
-/

namespace PolicySchema.Resolve

/-- A reference, written in the namespace `ns`, that its name alone does not lead to what the
reference denotes. -/
inductive IsShadowed (ds : List Declared) (ns : Option Name) : TypeRef → Prop where
  -- A name that must be that of an entity type and is found as that of a built-in type,
  | entityBuiltin {n id} : n.builtin? = some id → IsShadowed ds ns (.entity n)
  | entityPrimitive {n p} : n.isBare = true → Primitive.ofName? n.basename.text = some p →
      IsShadowed ds ns (.entity n)
  | entityExtension {n} : n.isBare = true → ¬HasEntityType ds n →
      isKnownExtension n.basename.text = true → IsShadowed ds ns (.entity n)
  -- or as that of a common type.
  | entityQualified {n} : n.isBare = false → HasCommonType ds n → IsShadowed ds ns (.entity n)
  | entityBare {n m} : n.isBare = true → MeansCommonType ds ns n.basename m →
      IsShadowed ds ns (.entity n)
  -- A name that must be that of a common type and is found as that of a built-in type.
  | commonBuiltin {n id} : n.builtin? = some id → IsShadowed ds ns (.common n)
  | commonPrimitive {n p m} : n.isBare = true → Primitive.ofName? n.basename.text = some p →
      MeansCommonType ds ns n.basename m → IsShadowed ds ns (.common n)

variable {ds : List Declared} {index : Index} {ns : Option Name} {r : TypeRef} {x : Referent}

private theorem target_asRef (index : Index) (ns : Option Name) (n : Name) :
    index.target ns n.asRef = index.target ns (.entityOrCommon n) := by
  unfold Name.asRef
  split
  · next id hid =>
    split
    · next p hp => simp [Index.target, hid, Index.builtinTarget, hp]
    · next hp =>
      split
      · simp [Index.target, hid, Index.builtinTarget, hp]
      · rfl
  · next hid =>
    split
    · next hbare =>
      split
      · next hstring =>
        simp [Index.target, hid, hbare, Index.bareTarget, hstring, Primitive.ofName?]
      · split
        · next hlong => simp [Index.target, hid, hbare, Index.bareTarget, hlong, Primitive.ofName?]
        · split
          · next hbool =>
            simp [Index.target, hid, hbare, Index.bareTarget, hbool, Primitive.ofName?]
          · rfl
    · rfl

private theorem denotes_asRef_iff (h : index.Reflects ds) {n : Name} :
    Denotes ds ns n.asRef x ↔ Denotes ds ns (.entityOrCommon n) x := by
  rw [h.denotes_iff, h.denotes_iff, target_asRef]

private theorem noCommonType_iff {id : Identifier} :
    NoCommonType ds ns id ↔ ∀ m, ¬MeansCommonType ds ns id m := by
  constructor
  · rintro ⟨hwithin, hbare⟩ m (h | ⟨-, h⟩)
    · exact hwithin h
    · exact hbare h
  · intro h
    have hwithin : ¬HasCommonType ds (Name.under ns id) := fun hn ↦ h _ (.within hn)
    exact ⟨hwithin, fun hn ↦ h _ (.anonymous hwithin hn)⟩

-- A name that must be that of an entity type is read as the same if nothing else of the name is
-- found before.
private theorem denotes_of_entity {n m : Name} (hm : MeansEntityType ds ns n m)
    (h : ¬IsShadowed ds ns (.entity n)) :
    Denotes ds ns (.entityOrCommon n) (.atom (.entity m)) := by
  have hprimitive (hb : n.isBare = true) : Primitive.ofName? n.basename.text = none :=
    Option.eq_none_iff_forall_ne_some.mpr fun _ hp ↦ h (.entityPrimitive hb hp)
  have hcommon (hb : n.isBare = true) : NoCommonType ds ns n.basename :=
    noCommonType_iff.mpr fun _ hn ↦ h (.entityBare hb hn)
  cases hm with
  | qualified hq =>
    have hbuiltin : n.builtin? = none :=
      Option.eq_none_iff_forall_ne_some.mpr fun _ hid ↦ h (.entityBuiltin hid)
    exact .qualifiedEntity hq hbuiltin fun hn ↦ h (.entityQualified hq hn)
  | anonymous hb he => exact .bareEntity hb (hprimitive hb) (hcommon hb) he
  | within hb he =>
    have hextension : isKnownExtension n.basename.text = false :=
      Bool.eq_false_iff.mpr fun hn ↦ h (.entityExtension hb he hn)
    exact .bareWithin hb (hprimitive hb) (hcommon hb) he hextension

private theorem not_isShadowed_entity {n m : Name}
    (h : Denotes ds ns (.entityOrCommon n) (.atom (.entity m))) :
    ¬IsShadowed ds ns (.entity n) := by
  intro hshadow
  cases h with
  | qualifiedEntity hq hbuiltin hn => cases hshadow <;> simp_all
  | bareEntity hb hp hnone he =>
    have hbuiltin := Name.builtin?_of_isBare hb
    cases hshadow with
    | entityBare _ hm => exact noCommonType_iff.mp hnone _ hm
    | _ => simp_all
  | bareWithin hb hp hnone he hextension =>
    have hbuiltin := Name.builtin?_of_isBare hb
    cases hshadow with
    | entityBare _ hm => exact noCommonType_iff.mp hnone _ hm
    | _ => simp_all

-- A name that must be that of a common type is read as the same if no built-in type of the name is
-- found before.
private theorem denotes_of_common {n m : Name} (hm : Denotes ds ns (.common n) (.common m))
    (h : ¬IsShadowed ds ns (.common n)) : Denotes ds ns (.entityOrCommon n) (.common m) := by
  cases hm with
  | commonQualified hq hn =>
    have hbuiltin : n.builtin? = none :=
      Option.eq_none_iff_forall_ne_some.mpr fun _ hid ↦ h (.commonBuiltin hid)
    exact .qualifiedCommon hq hbuiltin hn
  | commonBare hb hm =>
    have hprimitive : Primitive.ofName? n.basename.text = none :=
      Option.eq_none_iff_forall_ne_some.mpr fun _ hp ↦ h (.commonPrimitive hb hp hm)
    exact .bareCommon hb hprimitive hm

private theorem not_isShadowed_common {n m : Name}
    (h : Denotes ds ns (.entityOrCommon n) (.common m)) : ¬IsShadowed ds ns (.common n) := by
  intro hshadow
  cases h with
  | qualifiedCommon hq hbuiltin hn => cases hshadow <;> simp_all
  | bareCommon hb hp hm =>
    have hbuiltin := Name.builtin?_of_isBare hb
    cases hshadow <;> simp_all

/-- A reference that denotes something is not shadowed exactly if what its name is read as denotes
the same. -/
theorem not_isShadowed_iff (h : index.Reflects ds) (hx : Denotes ds ns r x) :
    ¬IsShadowed ds ns r ↔ Denotes ds ns r.normal x := by
  cases r with
  | primitive p => exact iff_of_true nofun hx
  | extension id => exact iff_of_true nofun hx
  | entityOrCommon n => exact iff_of_true nofun ((denotes_asRef_iff h).mpr hx)
  | entity n =>
    cases hx with
    | entity hm =>
      rw [TypeRef.normal, denotes_asRef_iff h]
      exact ⟨denotes_of_entity hm, not_isShadowed_entity⟩
  | common n =>
    rw [TypeRef.normal, denotes_asRef_iff h]
    cases x with
    | common m => exact ⟨denotes_of_common hx, not_isShadowed_common⟩
    | atom a =>
      cases hx with
      | commonPrimitive hb hnone hp =>
        refine iff_of_true ?_ (.barePrimitive hb hp)
        rintro (_ | _ | _ | _ | _ | hid | ⟨-, -, hm⟩)
        · rw [Name.builtin?_of_isBare hb] at hid
          cases hid
        · exact noCommonType_iff.mp hnone _ hm

end PolicySchema.Resolve
