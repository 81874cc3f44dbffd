import PolicySchema.Proofs.Except
import PolicySchema.Proofs.Resolve.Completed

/-!
# Resolving loses nothing

A resolved schema holds every entity type, every action and every namespace of the schemas that it
was resolved from, each with all that its declaration lists, and nothing else
(`resolveAll_preserves`).
-/

namespace PolicySchema

open Resolve

/-- The schema holds what the schemas declare, all of it and nothing else. -/
structure ResolvedSchema.Preserves (schemas : List Schema) (r : ResolvedSchema) : Prop where
  entityTypes : ∀ n, r.entityTypes.contains n = true ↔ ∃ d, .entityType n d ∈ declared schemas
  entityType : ∀ n d e, .entityType n d ∈ declared schemas → r.entityTypes.find? n = some e →
    EntityKept (declared schemas) n d e
  actions : ∀ uid, r.actions.contains uid = true ↔ ∃ d, .action uid d ∈ declared schemas
  action : ∀ uid d a, .action uid d ∈ declared schemas → r.actions.find? uid = some a →
    ActionKept (declared schemas) d a
  namespaces : ∀ ns, r.namespaces.contains ns = true ↔
    ∃ s ∈ schemas, s.namespaces.contains ns = true

namespace Resolve.Index

/-! ### Namespaces -/

section

variable {ε : Type} {f : Collected → ε → Collected} {added : ε → Option Name → Prop}

private theorem contains_namespaces_foldl
    (hf : ∀ c e m, (f c e).1.namespaces.contains m = true ↔
      c.1.namespaces.contains m = true ∨ added e m) (l : List ε) (c : Collected) (m : Option Name) :
    (l.foldl f c).1.namespaces.contains m = true ↔
      c.1.namespaces.contains m = true ∨ ∃ e ∈ l, added e m := by
  induction l generalizing c with
  | nil => simp
  | cons e rest ih => rw [List.foldl_cons, ih, hf, List.exists_mem_cons_iff, or_assoc]

private theorem namespaces_foldl (hf : ∀ c e, (f c e).1.namespaces = c.1.namespaces) (l : List ε)
    (c : Collected) : (l.foldl f c).1.namespaces = c.1.namespaces := by
  induction l generalizing c with
  | nil => rfl
  | cons e rest ih => rw [List.foldl_cons, ih, hf]

end

private theorem namespaces_addCommonType (ns : Option Name) (c : Collected)
    (e : Identifier × Declaration (TypeExpr TypeRef)) :
    (addCommonType ns c e).1.namespaces = c.1.namespaces := by
  unfold addCommonType
  dsimp only
  split <;> rfl

private theorem namespaces_addEntityType (ns : Option Name) (c : Collected)
    (e : Identifier × Declaration EntityType) :
    (addEntityType ns c e).1.namespaces = c.1.namespaces := by
  unfold addEntityType
  dsimp only
  split
  · split <;> rfl
  · rfl

private theorem namespaces_addAction (ns : Option Name) (c : Collected)
    (e : String × Declaration Action) :
    (addAction ns c e).1.namespaces = c.1.namespaces := by
  unfold addAction
  dsimp only
  split <;> rfl

/-- Adding the declarations of a namespace changes only its own annotations. -/
theorem namespaces_addNamespace (c : Collected) (ns : Option Name) (d : Namespace) :
    (addNamespace c (ns, d)).1.namespaces = (addAnnotations ns d.annotations c).1.namespaces := by
  rw [addNamespace, namespaces_foldl (namespaces_addAction ns),
    namespaces_foldl (namespaces_addEntityType ns), namespaces_foldl (namespaces_addCommonType ns)]

private theorem contains_namespaces_addNamespace (c : Collected) (e : Option Name × Namespace)
    (m : Option Name) : (addNamespace c e).1.namespaces.contains m = true ↔
      c.1.namespaces.contains m = true ∨ e.1 = m := by
  obtain ⟨ns, d⟩ := e
  rw [namespaces_addNamespace]
  simp only [addAnnotations, Table.contains, Table.find?_insert]
  split
  · next hm => simp [hm]
  · next hm => simp [Ne.symm hm]

/-- The index holds the namespaces of the schemas. -/
theorem contains_namespaces_collect (schemas : List Schema) (m : Option Name) :
    (collect schemas).1.namespaces.contains m = true ↔
      ∃ s ∈ schemas, s.namespaces.contains m = true := by
  have hschema (c : Collected) (s : Schema) (m : Option Name) :
      (addSchema c s).1.namespaces.contains m = true ↔
        c.1.namespaces.contains m = true ∨ s.namespaces.contains m = true := by
    rw [addSchema, contains_namespaces_foldl contains_namespaces_addNamespace]
    refine or_congr_right ?_
    rw [Table.contains, ← Table.mem_keys_iff, Table.keys, List.mem_map]
  rw [collect, contains_namespaces_foldl hschema, or_iff_right]
  have hnone : (∅ : Table (Option Name) Annotations).find? m = none := rfl
  simp [Index.empty, Table.contains, hnone]

end Resolve.Index

/-- A resolved schema holds what the schemas declare, with every parent, attribute, tag, value,
principal, resource, context and annotation, and nothing else. -/
theorem resolveAll_preserves {checks : StackChecks} {extensions : Extensions}
    {schemas : List Schema} {r : ResolvedSchema}
    (h : resolveAllUnder checks extensions schemas = .ok r) : r.Preserves schemas := by
  obtain ⟨hindex, -, hentity, haction, hnamespaces⟩ := completed_of_resolveAll h
  constructor
  · intro n
    rw [Table.contains, ← isSome_eq_of_rel (hentity n), Option.isSome_iff_exists]
    simp only [hindex.entityType]
  · intro n d e hd he
    obtain ⟨e', he', hkept⟩ := exists_right_of_rel (hentity n) ((hindex.entityType n d).mpr hd)
    obtain rfl := Option.some.inj (he.symm.trans he')
    exact hkept
  · intro uid
    rw [Table.contains, ← isSome_eq_of_rel (haction uid), Option.isSome_iff_exists]
    simp only [hindex.action]
  · intro uid d a hd ha
    obtain ⟨a', ha', hkept⟩ := exists_right_of_rel (haction uid) ((hindex.action uid d).mpr hd)
    obtain rfl := Option.some.inj (ha.symm.trans ha')
    exact hkept
  · intro ns
    rw [hnamespaces, Index.contains_namespaces_collect]

private def archive : Schema := ⟨.ofList [(some (.bare ⟨"Archive", by decide⟩), .empty)]⟩

-- A namespace with an annotated entity type that has parents and an optional attribute, an
-- enumerated entity type, and an action whose context is a common type.
private def shop : Schema :=
  let basket : Identifier := ⟨"Basket", by decide⟩
  let order : Identifier := ⟨"Order", by decide⟩
  let state : Identifier := ⟨"State", by decide⟩
  let request : Identifier := ⟨"Request", by decide⟩
  let doc : Annotations := .ofList [(⟨"doc", by decide⟩, "An order.")]
  let shape : Fields TypeRef :=
    .cons "state" (.leaf (.entityOrCommon (.bare state))) false doc .nil
  let body : Fields TypeRef := .cons "count" (.leaf (.primitive .long)) true ∅ .nil
  ⟨.ofList [(some (.bare ⟨"Shop", by decide⟩), { Namespace.empty with
    commonTypes := .ofList [(request, ⟨.record body ∅, ∅, none⟩)]
    entityTypes := .ofList [
      (basket, ⟨.standard [] none (some (.set (.leaf (.primitive .string)))), ∅, none⟩),
      (order, ⟨.standard [.bare basket, .bare basket] (some ⟨shape, ∅⟩) none, doc, none⟩),
      (state, ⟨.enumerated "open" ["closed"], ∅, none⟩)]
    actions := .ofList [
      ("edit", ⟨⟨[⟨none, "view"⟩],
        some ⟨[], [.bare order], some (.leaf (.common (.bare request)))⟩⟩, ∅, none⟩),
      ("view", ⟨⟨[], none⟩, ∅, none⟩)] })]⟩

/-- A parent that is listed twice counts once, the values of an enumerated entity type keep their
order, and a namespace without declarations is still there. -/
theorem resolveAll_preserves_shop :
    let shopName : Name := .bare ⟨"Shop", by decide⟩
    let named (id : Identifier) : Name := .under (some shopName) id
    let basket : Name := named ⟨"Basket", by decide⟩
    let order : Name := named ⟨"Order", by decide⟩
    let state : Name := named ⟨"State", by decide⟩
    ∃ r, resolveAll .none [archive, shop] = .ok r ∧
      r.namespaces.keys = [some (.bare ⟨"Archive", by decide⟩), some shopName] ∧
      (r.entityTypes.find? order).map (fun e ↦ e.memberOf.toList) = some [basket] ∧
      (r.entityTypes.find? state).map (fun e ↦ e.choices) =
        some (some [⟨state, "open"⟩, ⟨state, "closed"⟩]) ∧
      r.Preserves [archive, shop] := by
  intro shopName named basket order state
  have hfacts : (resolveAll .none [archive, shop]).toOption.map (fun r ↦ (r.namespaces.keys,
      (r.entityTypes.find? order).map (fun e ↦ e.memberOf.toList),
      (r.entityTypes.find? state).map (fun e ↦ e.choices))) =
        some ([some (.bare ⟨"Archive", by decide⟩), some shopName], some [basket],
          some (some [⟨state, "open"⟩, ⟨state, "closed"⟩])) := by decide +kernel
  obtain ⟨r, hr, hfacts⟩ := Option.map_eq_some_iff.mp hfacts
  rw [Except.toOption_eq_some_iff] at hr
  simp only [Prod.mk.injEq] at hfacts
  obtain ⟨hnamespaces, hparents, hchoices⟩ := hfacts
  exact ⟨r, hr, hnamespaces, hparents, hchoices, resolveAll_preserves hr⟩

end PolicySchema
