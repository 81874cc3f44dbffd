import PolicySchema.Proofs.Except
import PolicySchema.Proofs.Members

/-!
# What the text form can hold

The text form can hold types that do not nest too deep and in which no record has annotations of its
own (`Text.Vetted`), and an anonymous namespace without annotations. Where only the depth of a type
stands against that, the declaration with the type is named.
-/

namespace PolicySchema

section

variable {ρ : Type}

mutual

/-- No record in the type has annotations of its own. -/
def TypeExpr.IsPlain : TypeExpr ρ → Prop
  | .leaf _ => True
  | .set element => element.IsPlain
  | .record fields notes => notes = ∅ ∧ fields.IsPlain

/-- No record in the types of the attributes has annotations of its own. -/
def Fields.IsPlain : Fields ρ → Prop
  | .nil => True
  | .cons _ type _ _ rest => type.IsPlain ∧ rest.IsPlain

end

end

/-- No record in the schema has annotations of its own, nor has the anonymous namespace. -/
structure Schema.IsPlain (s : Schema) : Prop where
  types : ∀ e ∈ s.namespaces.entries, ∀ m ∈ e.2.members, ∀ t ∈ m.types, t.IsPlain
  anonymous : ∀ e ∈ s.namespaces.entries, e.1 = none → e.2.annotations = ∅

namespace Text

/-- The text form can hold the type. -/
structure Vetted (t : TypeExpr TypeRef) : Prop where
  plain : t.IsPlain
  depth : t.depth ≤ TypeExpr.maxDepth

/-- A type that the text form can hold is not too deep with its references replaced. -/
theorem Vetted.depth_mapRefs {t : TypeExpr TypeRef} (h : Vetted t) (f : TypeRef → TypeRef) :
    (t.mapRefs f).depth ≤ TypeExpr.maxDepth := by
  rw [TypeExpr.depth_mapRefs]
  exact h.depth

variable {declaration : String}

mutual

private theorem vetType_eq_ok_iff : ∀ {t : TypeExpr TypeRef} {depth : Nat},
    depth ≤ TypeExpr.maxDepth →
      (vetType declaration depth t = .ok () ↔ t.IsPlain ∧ depth + t.depth ≤ TypeExpr.maxDepth)
  | .leaf _, depth, hdepth => by simpa [vetType, TypeExpr.IsPlain, TypeExpr.depth] using hdepth
  | .set element, depth, hdepth => by
    rw [vetType, TypeExpr.IsPlain, TypeExpr.depth]
    split
    · next h => simp only [reduceCtorEq, false_iff]; omega
    · next h =>
      rw [vetType_eq_ok_iff (by omega)]
      exact and_congr_right fun _ ↦ by omega
  | .record fields notes, depth, hdepth => by
    rw [vetType, TypeExpr.IsPlain, TypeExpr.depth]
    split
    · next h => simp only [reduceCtorEq, false_iff]; omega
    · next h =>
      split
      · next hnotes =>
        rw [Bool.not_eq_true', ← Bool.not_eq_true, Table.isEmpty_iff] at hnotes
        simp [hnotes]
      · next hnotes =>
        rw [Bool.not_eq_true', Bool.not_eq_false, Table.isEmpty_iff] at hnotes
        rw [vetFields_eq_ok_iff (by omega), and_assoc, eq_true hnotes, true_and]
        exact and_congr_right fun _ ↦ by omega

private theorem vetFields_eq_ok_iff : ∀ {fields : Fields TypeRef} {depth : Nat},
    depth ≤ TypeExpr.maxDepth → (vetFields declaration depth fields = .ok () ↔
      fields.IsPlain ∧ depth + fields.depth ≤ TypeExpr.maxDepth)
  | .nil, depth, hdepth => by simpa [vetFields, Fields.IsPlain, Fields.depth] using hdepth
  | .cons _ type _ _ rest, depth, hdepth => by
    have htype : vetType declaration depth type = .ok () ↔ _ := vetType_eq_ok_iff hdepth
    have hrest : vetFields declaration depth rest = .ok () ↔ _ := vetFields_eq_ok_iff hdepth
    rw [vetFields, Fields.IsPlain, Fields.depth]
    split
    · next e he =>
      rw [he] at htype
      simp only [reduceCtorEq, false_iff] at htype ⊢
      rintro ⟨⟨hplain, -⟩, hmax⟩
      exact htype ⟨hplain, by omega⟩
    · next hok =>
      obtain ⟨hplain, hle⟩ := htype.mp hok
      rw [hrest, and_assoc, eq_true hplain, true_and]
      exact and_congr_right fun _ ↦ by omega

end

/-- The check of a type succeeds exactly if the text form can hold it. -/
theorem vetType_zero_eq_ok_iff {t : TypeExpr TypeRef} :
    vetType declaration 0 t = .ok () ↔ Vetted t := by
  rw [vetType_eq_ok_iff (Nat.zero_le _), Nat.zero_add]
  exact ⟨fun h ↦ ⟨h.1, h.2⟩, fun h ↦ ⟨h.plain, h.depth⟩⟩

mutual

private theorem eq_tooDeep_of_vetType {e : WriteError} : ∀ {t : TypeExpr TypeRef} {depth : Nat},
    t.IsPlain → vetType declaration depth t = .error e → e = .tooDeep declaration
  | .leaf _, _, _, h => by cases h
  | .set element, depth, hplain, h => by
    rw [vetType] at h
    split at h
    · cases h
      rfl
    · exact eq_tooDeep_of_vetType (t := element) hplain h
  | .record fields notes, depth, hplain, h => by
    obtain ⟨rfl, hfields⟩ := hplain
    rw [vetType, if_neg (c := (!_) = true) (by decide)] at h
    split at h
    · cases h
      rfl
    · exact eq_tooDeep_of_vetFields hfields h

private theorem eq_tooDeep_of_vetFields {e : WriteError} :
    ∀ {fields : Fields TypeRef} {depth : Nat}, fields.IsPlain →
      vetFields declaration depth fields = .error e → e = .tooDeep declaration
  | .nil, _, _, h => by cases h
  | .cons _ type _ _ rest, depth, hplain, h => by
    rw [vetFields] at h
    split at h
    · next htype =>
      cases h
      exact eq_tooDeep_of_vetType hplain.1 htype
    · exact eq_tooDeep_of_vetFields hplain.2 h

end

/-- A type without annotated records that nests too deep fails the check for its depth. -/
theorem vetType_of_overdeep {t : TypeExpr TypeRef} (hplain : t.IsPlain)
    (hdepth : ¬ t.depth ≤ TypeExpr.maxDepth) :
    vetType declaration 0 t = .error (.tooDeep declaration) := by
  cases h : vetType declaration 0 t with
  | ok u => exact absurd (vetType_zero_eq_ok_iff.mp h).depth hdepth
  | error e => rw [eq_tooDeep_of_vetType hplain h]

/-! ### Schemas -/

variable {name : Option Name} {ns : Namespace}

/-- The check of a namespace succeeds exactly if the text form can hold its types, and the anonymous
one has no annotations. -/
theorem vetNamespace_eq_ok_iff : vetNamespace name ns = .ok () ↔
    (name = none → ns.annotations = ∅) ∧ ∀ m ∈ ns.members, ∀ t ∈ m.types, Vetted t := by
  rw [vetNamespace]
  split
  · next hnotes =>
    simp only [Bool.and_eq_true, Option.isNone_iff_eq_none, Bool.not_eq_true'] at hnotes
    simp only [reduceCtorEq, false_iff]
    rintro ⟨hempty, -⟩
    rw [← Bool.not_eq_true, Table.isEmpty_iff] at hnotes
    exact hnotes.2 (hempty hnotes.1)
  · next hnotes =>
    have hempty : name = none → ns.annotations = ∅ := by
      rintro rfl
      simpa [Table.isEmpty_iff] using hnotes
    rw [Except.forM_eq_ok_iff, Namespace.namespaceTypeExprs_eq_flatMap]
    simp only [List.forall_mem_flatMap, List.forall_mem_map, vetType_zero_eq_ok_iff]
    exact ⟨fun h ↦ ⟨hempty, h⟩, fun h ↦ h.2⟩

/-- The check of a schema succeeds exactly if the text form can hold all its namespaces. -/
theorem vetSchema_eq_ok_iff {s : Schema} : vetSchema s = .ok () ↔
    ∀ e ∈ s.namespaces.entries, (e.1 = none → e.2.annotations = ∅) ∧
      ∀ m ∈ e.2.members, ∀ t ∈ m.types, Vetted t := by
  rw [vetSchema, Except.forM_eq_ok_iff]
  exact forall₂_congr fun e _ ↦ vetNamespace_eq_ok_iff

end Text

end PolicySchema
