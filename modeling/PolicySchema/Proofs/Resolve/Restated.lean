import PolicySchema.Proofs.Resolve.SuccessfulRuns

/-!
# Restated schemas

Schemas that declare the same as others, in other places and with other references that denote the
same, are resolved to the same entity types and actions (`resolveAll_restated`).
-/

namespace PolicySchema.Resolve

namespace Declared

/-- The declaration with its references replaced. -/
def mapRefs (f : TypeRef → TypeRef) : Declared → Declared
  | commonType n d => commonType n ⟨d.declaration.map (·.mapRefs f), d.ns⟩
  | entityType n d => entityType n ⟨d.declaration.map (·.mapRefs f), d.ns⟩
  | action uid d => action uid ⟨d.declaration.map (·.mapRefs f), d.ns⟩

/-- The declaration without its place. -/
def placeless : Declared → Declared
  | commonType n d => commonType n ⟨d.declaration.placeless, d.ns⟩
  | entityType n d => entityType n ⟨d.declaration.placeless, d.ns⟩
  | action uid d => action uid ⟨d.declaration.placeless, d.ns⟩

/-- Rewriting the references of a declaration keeps its key. -/
@[simp] theorem key_mapRefs (f : TypeRef → TypeRef) (d : Declared) : (d.mapRefs f).key = d.key := by
  cases d <;> rfl

/-- Forgetting where a declaration is written keeps its key. -/
@[simp] theorem key_placeless (d : Declared) : d.placeless.key = d.key := by
  cases d <;> rfl

end Declared

/-- The second declarations are the first ones with their references replaced, in the same order and
in some places. -/
def IsRestated (f : TypeRef → TypeRef) (ds ds' : List Declared) : Prop :=
  ds'.map Declared.placeless = ds.map fun d ↦ (d.mapRefs f).placeless

section

variable {f : TypeRef → TypeRef} {ds ds' : List Declared} {index index' : Index}

private theorem IsRestated.declaredOnce (h : IsRestated f ds ds') (hds : DeclaredOnce ds) :
    DeclaredOnce ds' := by
  have hkeys := congrArg (List.map Declared.key) h
  simp only [List.map_map, Function.comp_def, Declared.key_placeless, Declared.key_mapRefs] at hkeys
  rw [DeclaredOnce]
  exact hkeys ▸ hds

-- A declaration becomes another one if the two are the same but for the change and their places.
private theorem becomes_of_placeless_eq {α : Type} {g : α → α} {d d' : Placed α}
    (hdeclaration : (d.declaration.map g).placeless = d'.declaration.placeless)
    (hns : d.ns = d'.ns) : Placed.Becomes g d d' := by
  obtain ⟨⟨body, notes, location⟩, ns⟩ := d
  obtain ⟨⟨body', notes', location'⟩, ns'⟩ := d'
  cases hdeclaration
  cases hns
  exact .changed location'

private theorem rel_of_placeless_eq {d d' : Declared}
    (h : (d.mapRefs f).placeless = d'.placeless) :
    Declared.Rel (Placed.Becomes (·.mapRefs f)) (Placed.Becomes (·.mapRefs f))
      (Placed.Becomes (·.mapRefs f)) d d' := by
  cases d <;> cases d' <;>
    simp only [Declared.placeless, Declared.mapRefs, reduceCtorEq, Declared.commonType.injEq,
      Declared.entityType.injEq, Declared.action.injEq, Placed.mk.injEq] at h <;>
    obtain ⟨rfl, hdeclaration, hns⟩ := h
  · exact .commonType _ (becomes_of_placeless_eq hdeclaration hns)
  · exact .entityType _ (becomes_of_placeless_eq hdeclaration hns)
  · exact .action _ (becomes_of_placeless_eq hdeclaration hns)

private theorem forall₂_of_isRestated (h : IsRestated f ds ds') :
    List.Forall₂ (Declared.Rel (Placed.Becomes (·.mapRefs f)) (Placed.Becomes (·.mapRefs f))
      (Placed.Becomes (·.mapRefs f))) ds ds' := by
  have heq : List.Forall₂ Eq (ds.map fun d ↦ (d.mapRefs f).placeless)
      (ds'.map Declared.placeless) := by
    rw [List.forall₂_eq_eq_eq]
    exact h.symm
  rw [List.forall₂_map_left_iff, List.forall₂_map_right_iff] at heq
  exact heq.imp fun _ _ ↦ rel_of_placeless_eq

private theorem restates_of_isRestated (h : IsRestated f ds ds') (hindex : index.Reflects ds)
    (hindex' : index'.Reflects ds')
    (hreferences : ∀ d ∈ ds, ∀ r ∈ d.references, ∀ x,
      Denotes ds d.ns r x → Denotes ds d.ns (f r) x) :
    Restates f ds index index' := by
  have hrel := Index.rel_of_declared (forall₂_of_isRestated h) hindex hindex'
  refine ⟨hrel, hindex, fun d hd r hr x hx ↦ ?_⟩
  rw [hrel.target_eq]
  exact hindex.denotes_iff.mp (hreferences d hd r hr x (hindex.denotes_iff.mpr hx))

end

end PolicySchema.Resolve

namespace PolicySchema

open Resolve

/-- Schemas that declare the same, with other references that denote the same, are resolved to the
same entity types and actions. -/
theorem resolveAll_restated {f : TypeRef → TypeRef} {checks : StackChecks}
    {extensions : Extensions} {schemas schemas' : List Schema} {r : ResolvedSchema}
    (hdeclared : IsRestated f (declared schemas) (declared schemas'))
    (hreferences : ∀ d ∈ declared schemas, ∀ ref ∈ d.references, ∀ x,
      Denotes (declared schemas) d.ns ref x → Denotes (declared schemas) d.ns (f ref) x)
    (h : resolveAllUnder checks extensions schemas = .ok r) :
    ∃ r', resolveAllUnder checks extensions schemas' = .ok r' ∧
      r'.entityTypes = r.entityTypes ∧ r'.actions = r.actions := by
  have hcompleted := completed_of_resolveAll h
  have hcollect := (Index.collect_eq_nil_iff schemas).mpr hcompleted.declaredOnce
  have hcollect' :=
    (Index.collect_eq_nil_iff schemas').mpr (hdeclared.declaredOnce hcompleted.declaredOnce)
  have hrestates := restates_of_isRestated hdeclared hcompleted.reflects
    (Index.reflects_collect hcollect') hreferences
  have hrun : outcome ((resolveIndex (Index.collect schemas).1 extensions
      (Index.collect schemas).1.commonTypes.keys).run
        (.start checks (Index.collect schemas).1 [])) = .ok r := by
    rw [← hcollect]
    exact h
  obtain ⟨r', hrun', hsame⟩ := outcome_of_restates hrestates hrun
  refine ⟨r', ?_, hsame⟩
  rw [← hcollect'] at hrun'
  exact hrun'

end PolicySchema
