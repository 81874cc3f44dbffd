import PolicySchema.Proofs.Related
import PolicySchema.Proofs.Resolve.Collected
import PolicySchema.Resolve.Outcome

/-!
# Indices of related declarations

Declarations of the same kind under the same key may be related to one another (`Declared.Rel`).
Indices that hold related declarations find related declarations under every key (`Index.Rel`), and
the same is found by every name.
-/

namespace PolicySchema.Resolve

section

variable (C : Placed (TypeExpr TypeRef) → Placed (TypeExpr TypeRef) → Prop)
  (E : Placed EntityType → Placed EntityType → Prop) (A : Placed Action → Placed Action → Prop)

/-- The declarations are of the same kind and under the same key, and what they declare is
related. -/
inductive Declared.Rel : Declared → Declared → Prop where
  | commonType (n : Name) {d d'} : C d d' → Rel (.commonType n d) (.commonType n d')
  | entityType (n : Name) {d d'} : E d d' → Rel (.entityType n d) (.entityType n d')
  | action (uid : Uid) {d d'} : A d d' → Rel (.action uid d) (.action uid d')

/-- The indices find related declarations under every key, and know the same entity types. -/
structure Index.Rel (index index' : Index) : Prop where
  known : ∀ n, index'.known.contains n = index.known.contains n
  commonType : ∀ n, Option.Rel C (index.commonTypes.find? n) (index'.commonTypes.find? n)
  entityType : ∀ n, Option.Rel E (index.entityTypes.find? n) (index'.entityTypes.find? n)
  action : ∀ uid, Option.Rel A (index.actions.find? uid) (index'.actions.find? uid)

end

variable {C : Placed (TypeExpr TypeRef) → Placed (TypeExpr TypeRef) → Prop}
  {E : Placed EntityType → Placed EntityType → Prop} {A : Placed Action → Placed Action → Prop}
  {ds ds' : List Declared} {index index' : Index}

/-- The index of related declarations holds related declarations. -/
theorem Index.rel_of_declared (h : List.Forall₂ (Declared.Rel C E A) ds ds')
    (hindex : index.Reflects ds) (hindex' : index'.Reflects ds') :
    Index.Rel C E A index index' := by
  have hcommon (n : Name) :
      Option.Rel C (index.commonTypes.find? n) (index'.commonTypes.find? n) := by
    apply rel_of_exists
    · intro d hd
      obtain ⟨_, hd', hrel⟩ := exists_right_of_forall₂ h ((hindex.commonType n d).mp hd)
      cases hrel with
      | commonType _ hC => exact ⟨_, (hindex'.commonType n _).mpr hd', hC⟩
    · intro d' hd'
      obtain ⟨_, hd, hrel⟩ := exists_left_of_forall₂ h ((hindex'.commonType n d').mp hd')
      cases hrel with
      | commonType => exact ⟨_, (hindex.commonType n _).mpr hd⟩
  have hentity (n : Name) :
      Option.Rel E (index.entityTypes.find? n) (index'.entityTypes.find? n) := by
    apply rel_of_exists
    · intro d hd
      obtain ⟨_, hd', hrel⟩ := exists_right_of_forall₂ h ((hindex.entityType n d).mp hd)
      cases hrel with
      | entityType _ hE => exact ⟨_, (hindex'.entityType n _).mpr hd', hE⟩
    · intro d' hd'
      obtain ⟨_, hd, hrel⟩ := exists_left_of_forall₂ h ((hindex'.entityType n d').mp hd')
      cases hrel with
      | entityType => exact ⟨_, (hindex.entityType n _).mpr hd⟩
  have haction (uid : Uid) :
      Option.Rel A (index.actions.find? uid) (index'.actions.find? uid) := by
    apply rel_of_exists
    · intro d hd
      obtain ⟨_, hd', hrel⟩ := exists_right_of_forall₂ h ((hindex.action uid d).mp hd)
      cases hrel with
      | action _ hA => exact ⟨_, (hindex'.action uid _).mpr hd', hA⟩
    · intro d' hd'
      obtain ⟨_, hd, hrel⟩ := exists_left_of_forall₂ h ((hindex'.action uid d').mp hd')
      cases hrel with
      | action => exact ⟨_, (hindex.action uid _).mpr hd⟩
  refine ⟨fun n ↦ ?_, hcommon, hentity, haction⟩
  rw [Bool.eq_iff_iff, hindex.known, hindex'.known]
  simp only [HasEntityType, ← hindex.entityType, ← hindex'.entityType, ← hindex.action,
    ← hindex'.action, exists_and_right, ← Option.isSome_iff_exists, isSome_eq_of_rel (hentity _),
    isSome_eq_of_rel (haction _)]

/-- In indices with related declarations, a reference leads to the same. -/
theorem Index.Rel.target_eq (h : Index.Rel C E A index index') (ns : Option Name) (r : TypeRef) :
    index'.target ns r = index.target ns r := by
  have hcommon (n : Name) : index'.commonTypes.contains n = index.commonTypes.contains n :=
    (isSome_eq_of_rel (h.commonType n)).symm
  cases r <;> simp only [Index.target, Index.entityName, Index.commonType?, Index.commonTypeName?,
    Index.bareTarget, h.known, hcommon]

/-- Runs over indices with related declarations start in the same state. -/
theorem Index.Rel.start_eq (h : Index.Rel C E A index index') (checks : StackChecks)
    (problems : List Problem) :
    State.start checks index' problems = State.start checks index problems := by
  rw [State.start, map_const_eq_of_rel h.commonType, State.start]

end PolicySchema.Resolve
