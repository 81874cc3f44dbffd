import PolicySchema.Proofs.Resolve.Congruence
import PolicySchema.Proofs.Resolve.Merged

/-!
# Names of primitive types

A primitive type may be written as such, or by one of its names, bare or in the namespace of the
built-in types. Whichever way it is written, a schema is resolved to the same or has the same
problems (`Schema.resolve_respelled`). A name that must be that of a common type is no such way if a
common type of the name is declared, or if it is in the namespace of the built-in types
(`Schema.not_resolve_respelled`).
-/

namespace PolicySchema.Resolve

/-! ### Ways to write a primitive type -/

section

variable (ds : List Declared) (ns : Option Name)

/-- Written in the namespace `ns`, the second reference is the first one, or a name of the primitive
type that the first one is. -/
inductive Respells : TypeRef → TypeRef → Prop where
  | same (r : TypeRef) : Respells r r
  | bare {id p} : Primitive.ofName? id.text = some p →
      Respells (.primitive p) (.entityOrCommon (.bare id))
  | builtin {id p} : Primitive.ofName? id.text = some p →
      Respells (.primitive p) (.entityOrCommon (.bare Name.builtinNamespace ++ .bare id))
  | common {id p} : Primitive.ofName? id.text = some p → NoCommonType ds ns id →
      Respells (.primitive p) (.common (.bare id))

end

variable {ds : List Declared} {ns : Option Name} {index index' : Index}

private theorem Respells.target_eq (hindex : index.Reflects ds) {r r' : TypeRef}
    (h : Respells ds ns r r') : index.target ns r' = index.target ns r := by
  have hprimitive {p : Primitive} (hr' : Denotes ds ns r' (.atom (.primitive p))) :
      index.target ns r' = .atom (.primitive p) :=
    Index.target_of_primitive (hindex.denotes_iff.mp hr')
  cases h with
  | same => rfl
  | bare hp => exact hprimitive (.barePrimitive rfl hp)
  | builtin hp => exact hprimitive (.builtinPrimitive rfl hp)
  | common hp hnone => exact hprimitive (.commonPrimitive rfl hnone hp)

/-! ### Declarations -/

variable {L : Option Name → TypeRef → TypeRef → Prop}

variable (L) in
private abbrev DeclaredLeafwise : Declared → Declared → Prop :=
  Declared.Rel (Placed.Matches Eq fun ns ↦ TypeExpr.Leafwise (L ns))
    (Placed.Matches Eq fun ns ↦ EntityType.Leafwise (L ns))
    (Placed.Matches Eq fun ns ↦ Action.Leafwise (L ns))

private theorem forall₂_declaredIn {d d' : Namespace} (h : d.Leafwise (L ns) d') :
    List.Forall₂ (DeclaredLeafwise L) (declaredIn ns d) (declaredIn ns d') := by
  refine List.rel_append (List.rel_append ?_ ?_) ?_
  · rw [List.forall₂_map_left_iff, List.forall₂_map_right_iff]
    refine h.commonTypes.imp ?_
    rintro ⟨id, t⟩ ⟨_, t'⟩ ⟨rfl, ht⟩
    exact .commonType _ (.placed ht)
  · rw [List.forall₂_map_left_iff, List.forall₂_map_right_iff]
    refine h.entityTypes.imp ?_
    rintro ⟨id, e⟩ ⟨_, e'⟩ ⟨rfl, he⟩
    exact .entityType _ (.placed he)
  · rw [List.forall₂_map_left_iff, List.forall₂_map_right_iff]
    refine h.actions.imp ?_
    rintro ⟨id, a⟩ ⟨_, a'⟩ ⟨rfl, ha⟩
    exact .action _ (.placed ha)

private theorem forall₂_declared {s s' : Schema} (h : s.Leafwise L s') :
    List.Forall₂ (DeclaredLeafwise L) (declared [s]) (declared [s']) := by
  simp only [declared, List.flatMap_cons, List.flatMap_nil, List.append_nil]
  refine List.rel_flatMap h ?_
  rintro ⟨ns, d⟩ ⟨_, d'⟩ ⟨rfl, hd⟩
  exact forall₂_declaredIn hd

private theorem namespaces_collect_eq {s s' : Schema} (h : s.Leafwise L s') :
    (Index.collect [s']).1.namespaces = (Index.collect [s]).1.namespaces := by
  have hfold {l l' : List (Option Name × Namespace)}
      (hl : List.Forall₂ (fun e e' ↦ e.1 = e'.1 ∧ Namespace.Leafwise (L e.1) e.2 e'.2) l l')
      (c c' : Index.Collected) (hc : c'.1.namespaces = c.1.namespaces) :
      (l'.foldl Index.addNamespace c').1.namespaces =
        (l.foldl Index.addNamespace c).1.namespaces := by
    induction hl generalizing c c' with
    | nil => exact hc
    | @cons e e' _ _ he _ ih =>
      obtain ⟨ns, d⟩ := e
      obtain ⟨_, d'⟩ := e'
      obtain ⟨rfl, hd⟩ := he
      apply ih
      rw [Index.namespaces_addNamespace, Index.namespaces_addNamespace, hd.annotations]
      simp only [Index.addAnnotations, hc]
  exact hfold h _ _ rfl

/-! ### Runs -/

private theorem outcome_eq_of_corresponds {extensions : Extensions}
    (h : Corresponds Eq (fun _ ↦ Alike) L extensions index index')
    (hnamespaces : index'.namespaces = index.namespaces) (order : List Name) (s : State) :
    outcome ((resolveIndex index' extensions order).run s) =
      outcome ((resolveIndex index extensions order).run s) := by
  obtain ⟨hresult, hend⟩ := relates_resolveParts Alike.congruence h order s s (.refl s)
  rw [run_resolveIndex_eq, run_resolveIndex_eq, hresult]
  apply State.Agrees.outcome_eq hend
  rw [closed, closed, hnamespaces]

end PolicySchema.Resolve

namespace PolicySchema

open Resolve

/-- A schema in which primitive types are written by other names of theirs is resolved to the same,
or has the same problems, whatever is found of the stack. -/
theorem Schema.resolve_respelled (checks : StackChecks) (extensions : Extensions) {s s' : Schema}
    (h : s.Leafwise (Respells (declared [s])) s') :
    s'.resolveUnder checks extensions = s.resolveUnder checks extensions := by
  have hcollect (s : Schema) : (Index.collect [s]).2 = [] :=
    (Index.collect_eq_nil_iff [s]).mpr (declaredOnce_singleton s)
  have hindex := Index.reflects_collect (hcollect s)
  have hrel := Index.rel_of_declared (forall₂_declared h) hindex
    (Index.reflects_collect (hcollect s'))
  have hcorresponds : Corresponds Eq (fun _ ↦ Alike) (Respells (declared [s])) extensions
      (Index.collect [s]).1 (Index.collect [s']).1 := by
    refine ⟨hrel, fun {inner inner' ns origin origin' r r'} hr horigin hinner ↦ ?_⟩
    -- The same names are declared, so the new name means in the second schema what it would mean in
    -- the first.
    have htarget : (Index.collect [s']).1.target ns r' = (Index.collect [s]).1.target ns r := by
      rw [hrel.target_eq, hr.target_eq hindex]
    exact relates_resolveRef Alike.congruence hrel.known htarget horigin hinner
  have hkeys : (Index.collect [s']).1.commonTypes.keys = (Index.collect [s]).1.commonTypes.keys :=
    keys_eq_of_rel hrel.commonType
  rw [resolveUnder, resolveUnder, resolveAllUnder, resolveAllUnder]
  simp only [hcollect, hkeys, hrel.start_eq]
  exact outcome_eq_of_corresponds hcorresponds (namespaces_collect_eq h) _ _

-- A schema with a common type `String`, which holds truth values, and an entity type `Visitor` with
-- an age and tags, in which the primitive types are written as given.
private def written (bool long string : TypeRef) : Schema :=
  ⟨.ofList [(none, { Namespace.empty with
    commonTypes := .ofList [(⟨"String", by decide⟩, ⟨.set (.leaf bool), ∅, none⟩)]
    entityTypes := .ofList [(⟨"Visitor", by decide⟩, ⟨.standard []
      (some ⟨.cons "age" (.leaf long) true ∅ .nil, ∅⟩) (some (.leaf string)), ∅, none⟩)] })]⟩

private def visitorTags? (s : Schema) : Option ResolvedType := do
  let r ← (s.resolve .all).toOption
  let e ← r.entityTypes.find? (.bare ⟨"Visitor", by decide⟩)
  e.tags

/-- The primitive types may be written as `Boolean`, `__cedar::Long` and `String`, though there is a
common type `String`. -/
theorem Schema.resolve_respelled_shadowed :
    let s := written (.primitive .bool) (.primitive .long) (.primitive .string)
    let s' := written (.common (.bare ⟨"Boolean", by decide⟩))
      (.entityOrCommon (.bare Name.builtinNamespace ++ .bare ⟨"Long", by decide⟩))
      (.entityOrCommon (.bare ⟨"String", by decide⟩))
    s.Leafwise (Respells (declared [s])) s' ∧ s'.resolve .all = s.resolve .all ∧
      visitorTags? s' = some (.leaf (.primitive .string)) := by
  intro s s'
  have hindex : (Index.collect [s]).1.Reflects (declared [s]) :=
    Index.reflects_collect (by decide +kernel)
  have hnone : NoCommonType (declared [s]) none ⟨"Boolean", by decide⟩ := by
    rw [NoCommonType, ← hindex.contains_iff, ← hindex.contains_iff]
    decide +kernel
  have hrespelled : s.Leafwise (Respells (declared [s])) s' := by
    refine .cons ⟨rfl, rfl, .cons ⟨rfl, ?_⟩ .nil, .cons ⟨rfl, ?_⟩ .nil, .nil⟩ .nil
    · exact .declared (.set (.leaf (.common (by decide) hnone))) rfl
    · refine .declared (.standard (.some (.record (.cons ?_ .nil))) (.some ?_)) rfl
      · exact .leaf (.builtin (by decide))
      · exact .leaf (.bare (by decide))
  exact ⟨hrespelled, resolve_respelled [] .all hrespelled, by decide +kernel⟩

/-- A name that must be that of a common type means the common type `String` if there is one, and in
the namespace of the built-in types it means nothing. -/
theorem Schema.not_resolve_respelled :
    let string : Identifier := ⟨"String", by decide⟩
    let s := written (.primitive .bool) (.primitive .long) (.primitive .string)
    let common := written (.primitive .bool) (.primitive .long) (.common (.bare string))
    let builtin := written (.primitive .bool) (.primitive .long)
      (.common (.bare Name.builtinNamespace ++ .bare string))
    visitorTags? s = some (.leaf (.primitive .string)) ∧
      visitorTags? common = some (.set (.leaf (.primitive .bool))) ∧
      common.resolve .all ≠ s.resolve .all ∧
      (∃ problems, builtin.resolve .all = .error problems) ∧
      builtin.resolve .all ≠ s.resolve .all := by
  intro string s common builtin
  have htags : visitorTags? s = some (.leaf (.primitive .string)) := by decide +kernel
  have hcommon : visitorTags? common = some (.set (.leaf (.primitive .bool))) := by decide +kernel
  have hbuiltin : (builtin.resolve .all).toOption = none := by decide +kernel
  refine ⟨htags, hcommon, fun heq ↦ ?_, Except.toOption_eq_none_iff.mp hbuiltin, fun heq ↦ ?_⟩
  · have hsame : visitorTags? common = visitorTags? s := by rw [visitorTags?, heq, visitorTags?]
    rw [hcommon, htags] at hsame
    cases hsame
  · rw [visitorTags?, ← heq, hbuiltin] at htags
    cases htags

end PolicySchema
