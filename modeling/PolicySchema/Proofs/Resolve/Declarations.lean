import Mathlib.Data.List.Forall2
import PolicySchema.Proofs.Related
import PolicySchema.Proofs.Resolve.Inlining
import PolicySchema.Proofs.Resolve.Retained

/-!
# Resolving declarations keeps what they hold

A run that ends without a problem gives each entity type the attributes and tags that its shape and
tags unfold to, and each action the context that its context unfolds to (`HasTypes`). Beside these
types it keeps every parent, principal, resource and value that is listed, and the annotations
(`EntityKept`, `ActionKept`).
-/

namespace PolicySchema

variable {R R' : TypeExpr TypeRef → ResolvedType → Prop}

/-- The attributes and tags of a resolved entity type are related to those declared. A missing shape
counts as the empty record, and an enumerated entity type has neither. -/
def EntityType.HasTypes (R : TypeExpr TypeRef → ResolvedType → Prop) :
    EntityType → ResolvedEntityType → Prop
  | .standard _ shape tags, e =>
    R (shape.getD .empty).toType e.attributes.toType ∧ Option.Rel R tags e.tags
  | .enumerated .., e => e.attributes = .empty ∧ e.tags = none

/-- The context of a resolved action is related to that declared. A missing context counts as the
empty record. -/
def Action.HasTypes (R : TypeExpr TypeRef → ResolvedType → Prop) (a : Action)
    (r : ResolvedAction) : Prop :=
  Option.Rel (fun block applied ↦
    R (block.context.getD RecordType.empty.toType) applied.context.toType) a.appliesTo r.appliesTo

/-- The types of a resolved entity type satisfy any weaker relation. -/
theorem EntityType.HasTypes.imp {d : EntityType} {e : ResolvedEntityType} (h : d.HasTypes R e)
    (hR : ∀ t u, R t u → R' t u) : d.HasTypes R' e := by
  cases d with
  | standard memberOf shape tags =>
    obtain ⟨hshape, htags⟩ := h
    exact ⟨hR _ _ hshape, rel_imp htags hR⟩
  | enumerated first others => exact h

/-- The types of a resolved action satisfy any weaker relation. -/
theorem Action.HasTypes.imp {a : Action} {r : ResolvedAction} (h : a.HasTypes R r)
    (hR : ∀ t u, R t u → R' t u) : a.HasTypes R' r :=
  rel_imp h fun _ _ ↦ hR _ _

namespace Resolve

open Resolving

/-- The entity type `e` of the name `name` has all that its declaration `d` holds. -/
structure EntityKept (ds : List Declared) (name : Name) (d : Placed EntityType)
    (e : ResolvedEntityType) : Prop where
  memberOf : ∀ m, e.memberOf.contains m = true ↔
    ∃ n ∈ d.declaration.body.memberOf, MeansEntityType ds d.ns n m
  types : d.declaration.body.HasTypes (Unfolds ds (IsCyclic ds) d.ns) e
  choices : e.choices = d.declaration.body.values?.map fun ids ↦ ids.map fun id ↦ ⟨name, id⟩
  annotations : e.annotations = d.declaration.annotations

/-- What a resolved action applies to is all that the declared block lists. -/
structure AppliesToKept (ds : List Declared) (ns : Option Name) (block : AppliesTo)
    (applied : ResolvedAppliesTo) : Prop where
  principals : ∀ m, applied.principals.contains m = true ↔
    ∃ n ∈ block.principals, MeansEntityType ds ns n m
  resources : ∀ m, applied.resources.contains m = true ↔
    ∃ n ∈ block.resources, MeansEntityType ds ns n m
  context : Unfolds ds (IsCyclic ds) ns (block.context.getD RecordType.empty.toType)
    applied.context.toType

/-- The action `a` has all that its declaration `d` holds. -/
structure ActionKept (ds : List Declared) (d : Placed Action) (a : ResolvedAction) : Prop where
  memberOf : ∀ uid, a.memberOf.contains uid = true ↔
    ∃ r ∈ d.declaration.body.memberOf, Index.actionUid d.ns r = uid
  appliesTo : Option.Rel (AppliesToKept ds d.ns) d.declaration.body.appliesTo a.appliesTo
  annotations : a.annotations = d.declaration.annotations

/-- A kept action has the types its declaration unfolds to. -/
theorem ActionKept.hasTypes {ds : List Declared} {d : Placed Action} {a : ResolvedAction}
    (h : ActionKept ds d a) : d.declaration.body.HasTypes (Unfolds ds (IsCyclic ds) d.ns) a :=
  rel_imp h.appliesTo fun _ _ happlied ↦ happlied.context

variable {index : Index} {extensions : Extensions} {ds : List Declared} {ns : Option Name}
  {origin : Origin}

/-! ### Names -/

private theorem contains_entityNames_iff (hindex : index.Reflects ds) (names : List Name)
    (m : Name) : (KeySet.ofList (names.map (index.entityName ns))).contains m = true ↔
      ∃ n ∈ names, MeansEntityType ds ns n m := by
  simp only [KeySet.contains_ofList, List.mem_map, Index.meansEntityType_iff hindex.known]

private theorem completes_requireEntity (n : Name) :
    Completes index ds (requireEntity index origin n) (· = some n) := by
  unfold requireEntity
  split
  · exact .pure fun _ ↦ rfl
  · apply yields_reject

/-! ### Optional types -/

private theorem unfolds_empty :
    Unfolds ds (IsCyclic ds) ns RecordType.empty.toType RecordType.empty.toType := .record .nil

private theorem Unfolds.record?_eq {r : RecordType TypeRef} {u : ResolvedType}
    (h : Unfolds ds (IsCyclic ds) ns r.toType u) : ∃ r', u.record? = some r' ∧ u = r'.toType := by
  cases h with
  | record hfields => exact ⟨_, rfl, rfl⟩

private theorem completes_resolveOptionalType (t : Option (TypeExpr TypeRef)) :
    Completes index ds (resolveOptionalType index extensions ns origin t)
      (Option.Rel (Unfolds ds (IsCyclic ds) ns) t) := by
  cases t with
  | none => exact .pure fun _ ↦ .none
  | some t =>
    apply (completes_resolveType t).imp
    rintro - _ ⟨u, rfl, hu⟩
    exact .some hu

/-! ### Entity types -/

private theorem completes_resolveParents (name : Name) (location : Option Location)
    (parents : List Name) :
    Completes index ds (resolveParents index name ns location parents)
      (· = parents.map (index.entityName ns)) := by
  induction parents with
  | nil => exact .pure fun _ ↦ rfl
  | cons n rest ih =>
    unfold resolveParents
    dsimp only
    split
    · apply ih.bind
      intro others
      apply Kind.Triple.pure
      rintro - rfl
      rfl
    · exact (yields_report _ _ fun _ ↦ False).bind fun _ ↦ ih.imp fun _ _ _ ↦ False.elim

/-- An entity type is resolved with all that its declaration holds. -/
theorem completes_resolveEntityType (name : Name) (d : Placed EntityType) :
    Completes index ds (resolveEntityType index extensions name d) (EntityKept ds name d) := by
  unfold resolveEntityType
  dsimp only
  split
  · next memberOf shape tags hbody =>
    apply (completes_resolveParents name d.declaration.location memberOf).bind
    intro parents
    apply (completes_resolveOptionalType (shape.map RecordType.toType)).bind
    intro shape'
    apply (completes_resolveOptionalType tags).bind
    intro tags'
    apply Kind.Triple.pure
    rintro hindex htags hshape rfl
    refine ⟨fun m ↦ ?_, ?_, by rw [hbody]; rfl, rfl⟩
    · rw [hbody]
      exact contains_entityNames_iff hindex memberOf m
    · rw [hbody]
      refine ⟨?_, htags⟩
      cases shape with
      | none =>
        cases hshape
        exact unfolds_empty
      | some r =>
        cases hshape with
        | some hu =>
          obtain ⟨r', hr', rfl⟩ := hu.record?_eq
          simpa [hr'] using hu
  · next first others hbody =>
    apply Kind.Triple.pure
    intro _
    refine ⟨fun m ↦ ?_, ?_, by rw [hbody]; rfl, rfl⟩
    · rw [hbody]
      simp [EntityType.memberOf, KeySet.not_contains_empty]
    · rw [hbody]
      exact ⟨rfl, rfl⟩

/-! ### Actions -/

private theorem completes_resolveActionParents (uid : Uid) (location : Option Location)
    (parents : List ActionRef) :
    Completes index ds (resolveActionParents index uid ns location parents)
      (· = parents.map (Index.actionUid ns)) := by
  induction parents with
  | nil => exact .pure fun _ ↦ rfl
  | cons r rest ih =>
    unfold resolveActionParents
    dsimp only
    split
    · apply ih.bind
      intro others
      apply Kind.Triple.pure
      rintro - rfl
      rfl
    · exact (yields_report _ _ fun _ ↦ False).bind fun _ ↦ ih.imp fun _ _ _ ↦ False.elim

private theorem completes_resolveNames (names : List Name) :
    Completes index ds (resolveNames index ns origin names)
      (· = names.map (index.entityName ns)) := by
  induction names with
  | nil => exact .pure fun _ ↦ rfl
  | cons n rest ih =>
    apply (completes_requireEntity (index.entityName ns n)).bind
    intro found
    apply ih.bind
    intro others
    apply Kind.Triple.pure
    rintro - rfl rfl
    rfl

private theorem completes_resolveContext (uid : Uid) (context : Option (TypeExpr TypeRef)) :
    Completes index ds (resolveContext index extensions uid ns origin context) fun r ↦
      Unfolds ds (IsCyclic ds) ns (context.getD RecordType.empty.toType) r.toType := by
  apply (completes_resolveOptionalType context).bind
  intro result
  split
  · apply Kind.Triple.pure
    rintro - ⟨⟩
    exact unfolds_empty
  · next u =>
    split
    · next r hr =>
      apply Kind.Triple.pure
      rintro - ⟨hu⟩
      cases u <;> cases hr
      exact hu
    · exact (yields_report _ _ fun _ ↦ False).bind fun _ ↦ .pure fun _ ↦ False.elim

private theorem completes_resolveAppliesTo (uid : Uid) (applies : Option AppliesTo) :
    Completes index ds (resolveAppliesTo index extensions uid ns origin applies)
      (Option.Rel (AppliesToKept ds ns) applies) := by
  cases applies with
  | none => exact .pure fun _ ↦ .none
  | some block =>
    apply (completes_resolveNames block.principals).bind
    intro principals
    apply (completes_resolveNames block.resources).bind
    intro resources
    apply (completes_resolveContext uid block.context).bind
    intro context
    apply Kind.Triple.pure
    rintro hindex hcontext rfl rfl
    exact .some ⟨contains_entityNames_iff hindex _, contains_entityNames_iff hindex _, hcontext⟩

/-- An action is resolved with all that its declaration holds. -/
theorem completes_resolveAction (uid : Uid) (d : Placed Action) :
    Completes index ds (resolveAction index extensions uid d) (ActionKept ds d) := by
  apply (completes_resolveActionParents uid d.declaration.location d.declaration.body.memberOf).bind
  intro parents
  apply (completes_resolveAppliesTo uid d.declaration.body.appliesTo).bind
  intro applied
  apply Kind.Triple.pure
  rintro - happlied rfl
  exact ⟨fun u ↦ by rw [KeySet.contains_ofList, List.mem_map], happlied, rfl⟩

/-! ### All declarations -/

variable {κ α β : Type}

/-- Entries are resolved one by one, each under its key. -/
theorem completes_resolveEntries {f : κ → α → Resolving β} {P : κ → α → β → Prop}
    (hf : ∀ k a, Completes index ds (f k a) (P k a)) (entries : List (κ × α)) :
    Completes index ds (resolveEntries f entries) fun results ↦
      List.Forall₂ (fun e r ↦ e.1 = r.1 ∧ P e.1 e.2 r.2) entries results := by
  induction entries with
  | nil => exact .pure fun _ ↦ .nil
  | cons e rest ih =>
    obtain ⟨k, a⟩ := e
    apply (hf k a).bind
    intro b
    apply ih.bind
    intro others
    exact .pure fun _ hrest ha ↦ .cons ⟨rfl, ha⟩ hrest

/-- The entity types and actions of the index, resolved but for their descendants. -/
def resolveDeclarations (index : Index) (extensions : Extensions) :
    Resolving (Table Name ResolvedEntityType × Table Uid ResolvedAction) := do
  let entityTypes ← resolveEntries (resolveEntityType index extensions) index.entityTypes.entries
  let actions ← resolveEntries (resolveAction index extensions) index.actions.entries
  pure (.ofList entityTypes, .ofList actions)

/-- A run resolves the common types first, then the other declarations, and closes the hierarchies
of what it found. -/
theorem run_resolveIndex (order : List Name) (s : State) :
    (resolveIndex index extensions order).run s =
      (do
        let found ← resolveDeclarations index extensions
        closeHierarchies index found.1 found.2).run
          ((resolveCommonTypes index extensions order).run s).2 := rfl

/-- A table of entries that are related to those of another table is related to it key by key. -/
theorem rel_find?_ofList [Ord κ] [Std.TransOrd κ] [Std.LawfulEqOrd κ] [DecidableEq κ]
    {P : κ → α → β → Prop} {t : Table κ α} {results : List (κ × β)}
    (h : List.Forall₂ (fun e r ↦ e.1 = r.1 ∧ P e.1 e.2 r.2) t.entries results) (k : κ) :
    Option.Rel (P k) (t.find? k) ((Table.ofList results).find? k) := by
  have keys {l : List (κ × α)} {m : List (κ × β)}
      (h : List.Forall₂ (fun e r ↦ e.1 = r.1 ∧ P e.1 e.2 r.2) l m) :
      l.map Prod.fst = m.map Prod.fst := by
    induction h with
    | nil => rfl
    | cons h _ ih => simp [h.1, ih]
  have lookup {l : List (κ × α)} {m : List (κ × β)}
      (h : List.Forall₂ (fun e r ↦ e.1 = r.1 ∧ P e.1 e.2 r.2) l m) :
      Option.Rel (P k) (Table.lookup? k l) (Table.lookup? k m) := by
    induction h with
    | nil => exact .none
    | cons h _ ih =>
      obtain ⟨hkey, hP⟩ := h
      simp only [Table.lookup?, ← hkey]
      split
      · next heq =>
        obtain rfl := Std.LawfulEqOrd.eq_of_compare heq
        exact .some hP
      · exact ih
  have hnodup : (results.map Prod.fst).Nodup := keys h ▸ t.keys_nodup
  rw [Table.find?_ofList hnodup]
  exact lookup h

end Resolve

end PolicySchema
