import PolicySchema.Proofs.Resolve.Completed

/-!
# Resolving substitutes common types

The resolved schema of schemas in which no common type refers to itself holds, for each declared
entity type and action and for no other, the types that are left when the references in the declared
ones are replaced over and over (`resolveAll_substituted`). That the bodies of common types are
walked once, in whatever order references lead to them, makes no difference.
-/

namespace PolicySchema.Resolve

open Resolving

variable {index : Index} {extensions : Extensions} {ds : List Declared}

/-- The resolved entity types and actions are those declared, and their types are related to the
declared ones. -/
structure Matches (ds : List Declared)
    (R : Option Name → TypeExpr TypeRef → ResolvedType → Prop) (r : ResolvedSchema) : Prop where
  entityType : ∀ n d, .entityType n d ∈ ds →
    ∃ e, r.entityTypes.find? n = some e ∧ d.declaration.body.HasTypes (R d.ns) e
  entityType_declared : ∀ n e, r.entityTypes.find? n = some e →
    ∃ d, .entityType n d ∈ ds ∧ d.declaration.body.HasTypes (R d.ns) e
  action : ∀ uid d, .action uid d ∈ ds →
    ∃ a, r.actions.find? uid = some a ∧ d.declaration.body.HasTypes (R d.ns) a
  action_declared : ∀ uid a, r.actions.find? uid = some a →
    ∃ d, .action uid d ∈ ds ∧ d.declaration.body.HasTypes (R d.ns) a

/-- A resolved schema that matches by one relation matches by any weaker one. -/
theorem Matches.imp {R R' : Option Name → TypeExpr TypeRef → ResolvedType → Prop}
    {r : ResolvedSchema} (h : Matches ds R r) (hR : ∀ ns t u, R ns t u → R' ns t u) :
    Matches ds R' r where
  entityType n d hd := (h.entityType n d hd).imp fun _ he ↦ ⟨he.1, he.2.imp (hR d.ns)⟩
  entityType_declared n e he :=
    (h.entityType_declared n e he).imp fun d hd ↦ ⟨hd.1, hd.2.imp (hR d.ns)⟩
  action uid d hd := (h.action uid d hd).imp fun _ ha ↦ ⟨ha.1, ha.2.imp (hR d.ns)⟩
  action_declared uid a ha :=
    (h.action_declared uid a ha).imp fun d hd ↦ ⟨hd.1, hd.2.imp (hR d.ns)⟩

private theorem matches_of_rel {R : Option Name → TypeExpr TypeRef → ResolvedType → Prop}
    {r : ResolvedSchema} (hindex : index.Reflects ds)
    (hentity : ∀ n, Option.Rel (fun d e ↦ d.declaration.body.HasTypes (R d.ns) e)
      (index.entityTypes.find? n) (r.entityTypes.find? n))
    (haction : ∀ uid, Option.Rel (fun d a ↦ d.declaration.body.HasTypes (R d.ns) a)
      (index.actions.find? uid) (r.actions.find? uid)) : Matches ds R r where
  entityType n d hd := exists_right_of_rel (hentity n) ((hindex.entityType n d).mpr hd)
  entityType_declared n e he := by
    obtain ⟨d, hd, htypes⟩ := exists_left_of_rel (hentity n) he
    exact ⟨d, (hindex.entityType n d).mp hd, htypes⟩
  action uid d hd := exists_right_of_rel (haction uid) ((hindex.action uid d).mpr hd)
  action_declared uid a ha := by
    obtain ⟨d, hd, htypes⟩ := exists_left_of_rel (haction uid) ha
    exact ⟨d, (hindex.action uid d).mp hd, htypes⟩

end PolicySchema.Resolve

namespace PolicySchema

open Resolve

/-- Where no common type refers to itself, each type of a resolved schema is the only substitution
of the type that is declared. -/
theorem resolveAll_substituted {checks : StackChecks} {extensions : Extensions}
    {schemas : List Schema} {r : ResolvedSchema} (hacyclic : ∀ n, ¬IsCyclic (declared schemas) n)
    (h : resolveAllUnder checks extensions schemas = .ok r) :
    Matches (declared schemas) (IsSubstitution (declared schemas)) r := by
  obtain ⟨hindex, -, hentity, haction, -⟩ := completed_of_resolveAll h
  have hmatches : Matches (declared schemas)
      (Unfolds (declared schemas) (IsCyclic (declared schemas))) r :=
    matches_of_rel hindex (fun n ↦ rel_imp (hentity n) fun _ _ he ↦ he.types)
      fun uid ↦ rel_imp (haction uid) fun _ _ ha ↦ ha.hasTypes
  exact hmatches.imp fun ns t u hu ↦ hindex.isSubstitution_of_unfolds hacyclic hu

private def base : Schema :=
  let code : Identifier := ⟨"Code", by decide⟩
  ⟨.ofList [(none, { Namespace.empty with
    commonTypes := .ofList [(code, ⟨.leaf (.primitive .string), ∅, none⟩)] })]⟩

-- Common types of a namespace that lead to the one in `base`, one of them through the other, and an
-- entity type that refers to both.
private def extended : Schema :=
  let app : Identifier := ⟨"App", by decide⟩
  let codes : Identifier := ⟨"Codes", by decide⟩
  let profile : Identifier := ⟨"Profile", by decide⟩
  let user : Identifier := ⟨"User", by decide⟩
  let code : TypeRef := .entityOrCommon (.bare ⟨"Code", by decide⟩)
  let fields : Fields TypeRef :=
    .cons "codes" (.leaf (.common (.bare codes))) false ∅
      (.cons "owner" (.leaf (.entityOrCommon (.bare user))) true ∅ .nil)
  let shape : Fields TypeRef :=
    .cons "profile" (.leaf (.entityOrCommon (.bare profile))) true ∅ .nil
  ⟨.ofList [(some (.bare app), { Namespace.empty with
    commonTypes := .ofList [(codes, ⟨.set (.leaf code), ∅, none⟩),
      (profile, ⟨.record fields ∅, ∅, none⟩)]
    entityTypes := .ofList [(user, ⟨.standard [] (some ⟨shape, ∅⟩)
      (some (.leaf (.entityOrCommon (.under (some (.bare app)) codes)))), ∅, none⟩)] })]⟩

private def rank (n : Name) : Nat := match n.basename.text with
  | "Profile" => 2
  | "Codes" => 1
  | _ => 0

/-- A chain of common types across two namespaces is replaced to its end. -/
theorem resolveAll_substituted_chain :
    let user : Name := ⟨[⟨"App", by decide⟩], ⟨"User", by decide⟩⟩
    let codes : ResolvedType := .set (.leaf (.primitive .string))
    let profile : ResolvedType :=
      .record (.cons "codes" codes false ∅ (.cons "owner" (.leaf (.entity user)) true ∅ .nil)) ∅
    (∀ n, ¬IsCyclic (declared [base, extended]) n) ∧
      ∃ r, resolveAll .all [base, extended] = .ok r ∧
        (r.entityTypes.find? user).map (fun e ↦ (e.attributes, e.tags)) =
          some (⟨.cons "profile" profile true ∅ .nil, ∅⟩, some codes) ∧
        Matches (declared [base, extended]) (IsSubstitution (declared [base, extended])) r := by
  intro user codes profile
  have hcollect : (Index.collect [base, extended]).2 = [] := by decide +kernel
  have hacyclic : ∀ n, ¬IsCyclic (declared [base, extended]) n :=
    (Index.reflects_collect hcollect).not_isCyclic_of_rank rank (by decide +kernel)
  have htypes : (match resolveAll .all [base, extended] with
      | .ok r => (r.entityTypes.find? user).map fun e ↦ (e.attributes, e.tags)
      | .error _ => none) =
        some (⟨.cons "profile" profile true ∅ .nil, ∅⟩, some codes) := by decide +kernel
  refine ⟨hacyclic, ?_⟩
  cases hr : resolveAll .all [base, extended] with
  | error e =>
    rw [hr] at htypes
    cases htypes
  | ok r =>
    rw [hr] at htypes
    exact ⟨r, rfl, htypes, resolveAll_substituted hacyclic hr⟩

end PolicySchema
