import PolicySchema.Proofs.Resolve.Declarations
import PolicySchema.Proofs.Resolve.StandingTypes
import PolicySchema.Proofs.Resolve.Retained

/-!
# What resolving a declaration finds

Each entity type and action is resolved to one that refers to what is there only. Of the parents
that its declaration lists it keeps just those that are there (`EntityFound`, `ActionFound`). So a
run comes to closing the hierarchies with tables that hold what was found for each declaration,
whether or not problems were reported on the way (`runs_resolveDeclarations`).
-/

namespace PolicySchema.Resolve

open Resolving

/-- What is found for the declaration `d` of an entity type. -/
structure EntityFound (index : Index) (extensions : Extensions) (name : Name)
    (d : Placed EntityType) (e : ResolvedEntityType) : Prop where
  memberOf : ∀ m, e.memberOf.contains m = true ↔ index.known.contains m = true ∧
    ∃ n ∈ d.declaration.body.memberOf, index.entityName d.ns n = m
  attributes : Stands index extensions e.attributes.toType
  tags : ∀ t ∈ e.tags, Stands index extensions t
  choices : ∀ uids ∈ e.choices, ∀ uid ∈ uids, uid.type = name

/-- What is found for the block that says what an action applies to. -/
structure AppliesToFound (index : Index) (extensions : Extensions) (a : ResolvedAppliesTo) :
    Prop where
  principals : ∀ n, a.principals.contains n = true → index.known.contains n = true
  resources : ∀ n, a.resources.contains n = true → index.known.contains n = true
  context : Stands index extensions a.context.toType

/-- What is found for the declaration `d` of an action. -/
structure ActionFound (index : Index) (extensions : Extensions) (d : Placed Action)
    (a : ResolvedAction) : Prop where
  memberOf : ∀ uid, a.memberOf.contains uid = true ↔ index.actions.contains uid = true ∧
    ∃ r ∈ d.declaration.body.memberOf, Index.actionUid d.ns r = uid
  appliesTo : ∀ applies ∈ a.appliesTo, AppliesToFound index extensions applies

variable {index : Index} {extensions : Extensions} {ns : Option Name} {origin : Origin}

/-! ### Entity types -/

private theorem stands_empty : Stands index extensions RecordType.empty.toType := nofun

private theorem runs_resolveParents (name : Name) (location : Option Location)
    (parents : List Name) :
    Runs index extensions (resolveParents index name ns location parents) fun found ↦
      ∀ m, m ∈ found ↔
        index.known.contains m = true ∧ ∃ n ∈ parents, index.entityName ns n = m := by
  induction parents with
  | nil => exact .pure fun _ ↦ by simp
  | cons n rest ih =>
    unfold resolveParents
    dsimp only
    split
    · next hknown =>
      apply ih.bind
      intro others hothers
      refine .pure fun _ ↦ ?_
      intro m
      rw [List.mem_cons, hothers, List.exists_mem_cons_iff]
      grind
    · next hunknown =>
      apply (runs_report _ (by simp [Cause.fault])).bind
      intro _ _
      apply ih.imp
      intro _ found hfound m
      rw [hfound, List.exists_mem_cons_iff]
      grind

private theorem runs_resolveOptionalType (t : Option (TypeExpr TypeRef)) :
    Runs index extensions (resolveOptionalType index extensions ns origin t)
      (∀ t ∈ ·, Stands index extensions t) := by
  cases t with
  | none => exact .pure fun _ ↦ by simp
  | some t => exact runs_resolveType t

private theorem stands_of_record? {t : ResolvedType} {r : ResolvedRecord}
    (h : Stands index extensions t) (hr : t.record? = some r) :
    Stands index extensions r.toType := by
  cases t <;> cases hr
  exact h

private theorem runs_resolveEntityType (name : Name) (d : Placed EntityType) :
    Runs index extensions (resolveEntityType index extensions name d)
      (EntityFound index extensions name d) := by
  unfold resolveEntityType
  dsimp only
  split
  · next memberOf shape tags hbody =>
    apply (runs_resolveParents name d.declaration.location memberOf).bind
    intro parents hparents
    apply (runs_resolveOptionalType (shape.map RecordType.toType)).bind
    intro shape hshape
    apply (runs_resolveOptionalType tags).bind
    intro tags htags
    refine .pure fun _ ↦ ?_
    refine ⟨fun m ↦ ?_, ?_, htags, nofun⟩
    · rw [KeySet.contains_ofList, hparents, hbody]
      rfl
    · cases hrecord : shape.bind TypeExpr.record? with
      | none => exact stands_empty
      | some r =>
        obtain ⟨t, ht, hr⟩ := Option.bind_eq_some_iff.mp hrecord
        exact stands_of_record? (hshape t ht) hr
  · next first others hbody =>
    refine .pure fun _ ↦ ?_
    refine ⟨fun m ↦ ?_, stands_empty, nofun, ?_⟩
    · rw [hbody]
      simp [EntityType.memberOf, KeySet.not_contains_empty]
    · rintro _ ⟨⟩ uid huid
      obtain ⟨id, -, rfl⟩ := List.mem_map.mp huid
      rfl

/-! ### Actions -/

private theorem runs_resolveActionParents (uid : Uid) (location : Option Location)
    (parents : List ActionRef) :
    Runs index extensions (resolveActionParents index uid ns location parents) fun found ↦
      ∀ u, u ∈ found ↔ index.actions.contains u = true ∧
        ∃ r ∈ parents, Index.actionUid ns r = u := by
  induction parents with
  | nil => exact .pure fun _ ↦ by simp
  | cons r rest ih =>
    unfold resolveActionParents
    dsimp only
    split
    · next hdeclared =>
      apply ih.bind
      intro others hothers
      refine .pure fun _ ↦ ?_
      intro u
      rw [List.mem_cons, hothers, List.exists_mem_cons_iff]
      grind
    · next hundeclared =>
      apply (runs_report _ (by simp [Cause.fault])).bind
      intro _ _
      apply ih.imp
      intro _ found hfound u
      rw [hfound, List.exists_mem_cons_iff]
      grind

private theorem runs_resolveNames (names : List Name) :
    Runs index extensions (resolveNames index ns origin names)
      (∀ n ∈ ·, index.known.contains n = true) := by
  induction names with
  | nil => exact .pure fun _ ↦ nofun
  | cons n rest ih =>
    apply (runs_requireEntity (index.entityName ns n)).bind
    rintro _ rfl
    apply ih.bind
    intro others hothers
    refine .pure fun _ ↦ ?_
    intro m hm
    rcases List.mem_append.mp hm with hm | hm
    · split at hm
      · next hknown =>
        obtain rfl := List.mem_singleton.mp hm
        exact hknown
      · cases hm
    · exact hothers m hm

private theorem runs_resolveContext (uid : Uid) (context : Option (TypeExpr TypeRef)) :
    Runs index extensions (resolveContext index extensions uid ns origin context) fun r ↦
      Stands index extensions r.toType := by
  apply (runs_resolveOptionalType context).bind
  intro result hresult
  split
  · exact .pure fun _ ↦ stands_empty
  · next t =>
    split
    · next r hr => exact .pure fun _ ↦ stands_of_record? (hresult t rfl) hr
    · exact (runs_report _ (by simp [Cause.fault])).bind fun _ _ ↦ .pure fun _ ↦ stands_empty

private theorem runs_resolveAppliesTo (uid : Uid) (applies : Option AppliesTo) :
    Runs index extensions (resolveAppliesTo index extensions uid ns origin applies)
      (∀ a ∈ ·, AppliesToFound index extensions a) := by
  cases applies with
  | none => exact .pure fun _ ↦ nofun
  | some block =>
    apply (runs_resolveNames block.principals).bind
    intro principals hprincipals
    apply (runs_resolveNames block.resources).bind
    intro resources hresources
    apply (runs_resolveContext uid block.context).bind
    intro context hcontext
    refine .pure fun _ ↦ ?_
    rintro _ ⟨⟩
    exact ⟨fun n hn ↦ hprincipals n (KeySet.contains_ofList.mp hn),
      fun n hn ↦ hresources n (KeySet.contains_ofList.mp hn), hcontext⟩

private theorem runs_resolveAction (uid : Uid) (d : Placed Action) :
    Runs index extensions (resolveAction index extensions uid d)
      (ActionFound index extensions d) := by
  apply (runs_resolveActionParents uid d.declaration.location d.declaration.body.memberOf).bind
  intro parents hparents
  apply (runs_resolveAppliesTo uid d.declaration.body.appliesTo).bind
  intro applies happlies
  refine .pure fun _ ↦ ?_
  exact ⟨fun u ↦ by rw [KeySet.contains_ofList, hparents], happlies⟩

/-! ### All declarations -/

private theorem runs_resolveEntries {κ α β : Type} {f : κ → α → Resolving β}
    {P : κ → α → β → Prop} (hf : ∀ k a, Runs index extensions (f k a) (P k a))
    (entries : List (κ × α)) :
    Runs index extensions (resolveEntries f entries)
      (List.Forall₂ (fun e r ↦ e.1 = r.1 ∧ P e.1 e.2 r.2) entries) := by
  induction entries with
  | nil => exact .pure fun _ ↦ .nil
  | cons e rest ih =>
    obtain ⟨k, a⟩ := e
    apply (hf k a).bind
    intro b hb
    apply ih.bind
    intro others hothers
    exact .pure fun _ ↦ .cons ⟨rfl, hb⟩ hothers

/-- What is found for the declarations of the index, key by key. -/
structure Index.Finds (index : Index) (extensions : Extensions)
    (entityTypes : Table Name ResolvedEntityType) (actions : Table Uid ResolvedAction) : Prop where
  entityType : ∀ n, Option.Rel (EntityFound index extensions n) (index.entityTypes.find? n)
    (entityTypes.find? n)
  action : ∀ uid, Option.Rel (ActionFound index extensions) (index.actions.find? uid)
    (actions.find? uid)

section

variable {ds : List Declared} {entityTypes : Table Name ResolvedEntityType}
  {actions : Table Uid ResolvedAction}

/-- An entity type is found if it is declared. -/
theorem Index.Finds.contains_entityType_iff (h : index.Finds extensions entityTypes actions)
    (hindex : index.Retains ds) {n : Name} :
    entityTypes.contains n = true ↔ ∃ d, .entityType n d ∈ ds := by
  rw [Table.contains, ← isSome_eq_of_rel (h.entityType n), hindex.entityType,
    isSome_retainedEntityType?_iff]

/-- An action is found if it is declared. -/
theorem Index.Finds.contains_action_iff (h : index.Finds extensions entityTypes actions)
    (hindex : index.Retains ds) {uid : Uid} :
    actions.contains uid = true ↔ ∃ d, .action uid d ∈ ds := by
  rw [Table.contains, ← isSome_eq_of_rel (h.action uid), hindex.action,
    isSome_retainedAction?_iff]

end

/-- The declarations of the index are resolved to what is found for them. -/
theorem runs_resolveDeclarations :
    Runs index extensions (resolveDeclarations index extensions) fun found ↦
      index.Finds extensions found.1 found.2 := by
  apply (runs_resolveEntries runs_resolveEntityType index.entityTypes.entries).bind
  intro entityTypes hentities
  apply (runs_resolveEntries (fun _ ↦ runs_resolveAction _) index.actions.entries).bind
  intro actions hactions
  refine .pure fun _ ↦ ⟨rel_find?_ofList hentities, ?_⟩
  exact rel_find?_ofList (P := fun _ ↦ ActionFound index extensions) hactions

end PolicySchema.Resolve
