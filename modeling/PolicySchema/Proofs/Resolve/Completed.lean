import PolicySchema.Proofs.Resolve.Faults
import PolicySchema.Proofs.Resolve.Hierarchies

/-!
# Runs that end without a problem

A run that ends without a problem has resolved every declaration, and each one with all that it
holds. The bodies of common types that nothing refers to are resolved as well
(`completed_of_resolveAll`). So every reference denotes something (`denotesKnown_of_resolveAll`).
-/

namespace PolicySchema.Resolve

open Resolving

/-- The declarations are resolved: each common type has something that its body unfolds to, and each
entity type and action is kept, and no others are. Nothing is declared twice. -/
structure Completed (index : Index) (extensions : Extensions) (ds : List Declared)
    (r : ResolvedSchema) : Prop where
  reflects : index.Reflects ds
  commonType : ∀ n d, .commonType n d ∈ ds →
    ∃ t, Unfolds ds (IsCyclic ds) d.ns d.declaration.body t ∧ Stands index extensions t
  entityType : ∀ n, Option.Rel (EntityKept ds n) (index.entityTypes.find? n)
    (r.entityTypes.find? n)
  action : ∀ uid, Option.Rel (ActionKept ds) (index.actions.find? uid) (r.actions.find? uid)
  namespaces : r.namespaces = index.namespaces
  declaredOnce : DeclaredOnce ds

variable {index : Index} {extensions : Extensions} {ds : List Declared}

/-! ### Entity types and actions -/

private theorem completes_closeHierarchies (entityTypes : Table Name ResolvedEntityType)
    (actions : Table Uid ResolvedAction) :
    Completes index ds (closeHierarchies index entityTypes actions)
      (· = closed index entityTypes actions) := fun s ↦
  have hcloses : Completes index ds (closeHierarchies index entityTypes actions) fun _ ↦ True :=
    .closeHierarchies (fun _ _ ↦ yields_report _ _ _) fun _ _ ↦ yields_report _ _ _
  ⟨(hcloses s).rel, fun _ ↦ closeHierarchies_result s⟩

private theorem EntityKept.with_descendants {n : Name} {d : Placed EntityType}
    {e : ResolvedEntityType} (h : EntityKept ds n d e) (descendants : KeySet Name) :
    EntityKept ds n d { e with descendants } := by
  obtain ⟨hmemberOf, htypes, hchoices, hnotes⟩ := h
  refine ⟨hmemberOf, ?_, hchoices, hnotes⟩
  cases hbody : d.declaration.body <;> rw [hbody] at htypes <;> exact htypes

private theorem completes_resolveDeclarations :
    Completes index ds (resolveDeclarations index extensions) fun found ↦
      (∀ n, Option.Rel (EntityKept ds n) (index.entityTypes.find? n) (found.1.find? n)) ∧
      ∀ uid, Option.Rel (ActionKept ds) (index.actions.find? uid) (found.2.find? uid) := by
  apply (completes_resolveEntries completes_resolveEntityType index.entityTypes.entries).bind
  intro entityTypes
  apply (completes_resolveEntries completes_resolveAction index.actions.entries).bind
  intro actions
  apply Kind.Triple.pure
  rintro - hactions hentities
  exact ⟨rel_find?_ofList hentities, rel_find?_ofList (P := fun _ ↦ ActionKept ds) hactions⟩

private theorem completes_closing :
    Completes index ds
      (do
        let found ← resolveDeclarations index extensions
        closeHierarchies index found.1 found.2)
      fun r ↦
        (∀ n, Option.Rel (EntityKept ds n) (index.entityTypes.find? n) (r.entityTypes.find? n)) ∧
        ∀ uid, Option.Rel (ActionKept ds) (index.actions.find? uid) (r.actions.find? uid) := by
  apply completes_resolveDeclarations.bind
  rintro ⟨entityTypes, actions⟩
  apply (completes_closeHierarchies entityTypes actions).imp
  rintro - _ rfl ⟨hentities, hactions⟩
  constructor
  · intro n
    rw [closed, Table.find?_mapEntries]
    exact rel_map (hentities n) fun _ _ he ↦ he.with_descendants _
  · intro uid
    rw [closed, Table.find?_mapEntries]
    exact rel_map (hactions uid) fun _ _ ha ↦ ⟨ha.memberOf, ha.appliesTo, ha.annotations⟩

/-! ### The whole run -/

private theorem sound_start (hindex : index.Reflects ds) (checks : StackChecks)
    (problems : List Problem) : Sound index ds (.start checks index problems) where
  reflects := hindex
  known n := by simp [State.start, Table.find?_map]
  settled _ _ h := nomatch State.eq_waiting_of_start h

/-- A state in which no body has been walked is ready to walk each body once. -/
theorem ready_start (checks : StackChecks) (problems : List Problem) :
    Ready index.commonTypes.size (fun _ ↦ False) (.start checks index problems) where
  walking _ h := nomatch State.eq_waiting_of_start h
  room := by
    refine ⟨index.commonTypes.keys, by simp [Table.keys, Table.size], fun n h ↦ ?_⟩
    rw [Table.mem_keys_iff]
    simp only [State.start, Table.find?_map, Option.map_eq_some_iff] at h
    obtain ⟨d, hd, -⟩ := h
    simp [hd]

-- In a sound and steady state in which no body is walked or left to be walked, every common type
-- unfolds to something that stands.
private theorem exists_unfolds_of_walked {s : State} (hsound : Sound index ds s)
    (hsteady : Steady index extensions s) {n : Name} {d : Placed (TypeExpr TypeRef)}
    (hd : .commonType n d ∈ ds) (hwaiting : s.common.find? n ≠ some .waiting)
    (hwalking : s.common.find? n ≠ some .walking) :
    ∃ t, Unfolds ds (IsCyclic ds) d.ns d.declaration.body t ∧ Stands index extensions t := by
  have hknown := hsound.known n
  rw [(hsound.reflects.commonType n d).mpr hd] at hknown
  obtain ⟨progress, hprogress⟩ := Option.isSome_iff_exists.mp hknown
  cases progress with
  | waiting => exact absurd hprogress hwaiting
  | walking => exact absurd hprogress hwalking
  | settled outcome =>
    obtain ⟨t, rfl, d', hd', ht⟩ := hsound.settled n outcome hprogress
    obtain rfl := hsound.reflects.commonType_unique hd hd'
    exact ⟨t, ht, hsteady.settled n t _ hprogress⟩

end PolicySchema.Resolve

namespace PolicySchema

open Resolve

/-- A resolved schema comes from a run that has resolved every declaration. -/
theorem completed_of_resolveAll {checks : StackChecks} {extensions : Extensions}
    {schemas : List Schema} {r : ResolvedSchema}
    (h : resolveAllUnder checks extensions schemas = .ok r) :
    Completed (Index.collect schemas).1 extensions (declared schemas) r := by
  let index := (Index.collect schemas).1
  let start : State := .start checks index (Index.collect schemas).2
  let walked := ((resolveCommonTypes index extensions index.commonTypes.keys).run start).2
  have hcommon : ∀ n ∈ index.commonTypes.keys, index.Reflects (declared schemas) →
      HasCommonType (declared schemas) n := by
    intro n hn hindex
    rw [Table.mem_keys_iff, Option.isSome_iff_exists] at hn
    exact hn.imp fun d hd ↦ (hindex.commonType n d).mp hd
  have hrun : outcome ((resolveIndex index extensions index.commonTypes.keys).run start) =
    .ok r := h
  rw [run_resolveIndex, outcome_eq_ok_iff] at hrun
  obtain ⟨hend, rfl⟩ := hrun
  obtain ⟨hmiddle, hothers⟩ := yieldsAt_iff.mp (completes_closing walked) hend
  obtain ⟨hbegin, hfirst⟩ :=
    yieldsAt_iff.mp (completesAt_resolveCommonTypes _ hcommon start) hmiddle
  have hindex : index.Reflects (declared schemas) := Index.reflects_collect hbegin
  obtain ⟨hsound, hlater, hwaiting⟩ := hfirst (sound_start hindex _ _) (ready_start _ _)
  have hready := (ready_start _ _).later hlater
  obtain ⟨hsteady, -⟩ := runs_iff.mp (runs_resolveCommonTypes index.commonTypes.keys) start
    (steady_start (Index.retains_collect schemas).2)
  obtain ⟨-, -, hentity, haction⟩ := hothers hsound hready
  refine ⟨hindex, fun n d hd ↦ ?_, hentity, haction, rfl,
    (Index.collect_eq_nil_iff schemas).mp hbegin⟩
  have hkey : n ∈ index.commonTypes.keys := by
    rw [Table.mem_keys_iff, (hindex.commonType n d).mpr hd]
    rfl
  exact exists_unfolds_of_walked hsound hsteady hd (hwaiting n hkey) (hready.walking n)

namespace Resolve

/-! ### References -/

section

variable {ns : Option Name} {r : TypeRef}

/-- The reference denotes a common type, or an atom that stands. -/
def DenotesKnown (index : Index) (extensions : Extensions) (ds : List Declared) (ns : Option Name)
    (r : TypeRef) : Prop :=
  ∃ x, Denotes ds ns r x ∧ ∀ a, x = .atom a → a.Stands index.known.contains extensions

mutual

private theorem denotesKnown_of_unfolds {t : TypeExpr TypeRef} {u : ResolvedType}
    (hu : Unfolds ds (IsCyclic ds) ns t u) (hstands : Stands index extensions u)
    (hr : r ∈ t.leaves) : DenotesKnown index extensions ds ns r := by
  match hu with
  | .atom hd =>
    obtain rfl := List.mem_singleton.mp hr
    refine ⟨_, hd, ?_⟩
    rintro _ ⟨⟩
    exact hstands _ List.mem_cons_self
  | .common hd _ =>
    obtain rfl := List.mem_singleton.mp hr
    exact ⟨_, hd, nofun⟩
  | .set hu => exact denotesKnown_of_unfolds hu hstands hr
  | .record hu => exact denotesKnown_of_unfoldsFields hu hstands hr

private theorem denotesKnown_of_unfoldsFields {fields : Fields TypeRef} {u : Fields Atom}
    (hu : UnfoldsFields ds (IsCyclic ds) ns fields u)
    (hstands : ∀ a ∈ u.leaves, a.Stands index.known.contains extensions)
    (hr : r ∈ fields.leaves) : DenotesKnown index extensions ds ns r := by
  match hu with
  | .nil => cases hr
  | .cons hu hrest =>
    obtain ⟨hfirst, hothers⟩ := List.forall_mem_append.mp hstands
    rcases List.mem_append.mp hr with hr | hr
    · exact denotesKnown_of_unfolds hu hfirst hr
    · exact denotesKnown_of_unfoldsFields hrest hothers hr

end

end

end Resolve

private theorem EntityType.HasTypes.of_mem {R : TypeExpr TypeRef → ResolvedType → Prop}
    {d : EntityType} {e : ResolvedEntityType} (h : d.HasTypes R e) {t : TypeExpr TypeRef}
    (ht : t ∈ Text.entityTypeExprs d) : R t e.attributes.toType ∨ ∃ u ∈ e.tags, R t u := by
  cases d with
  | standard memberOf shape tags =>
    obtain ⟨hshape, htags⟩ := h
    rcases List.mem_append.mp ht with ht | ht
    · obtain ⟨r, rfl, rfl⟩ := Option.map_eq_some_iff.mp (Option.mem_toList.mp ht)
      exact .inl hshape
    · exact .inr (exists_right_of_rel htags (Option.mem_toList.mp ht))
  | enumerated first others => cases ht

private theorem Action.HasTypes.of_mem {R : TypeExpr TypeRef → ResolvedType → Prop} {d : Action}
    {a : ResolvedAction} (h : d.HasTypes R a) {t : TypeExpr TypeRef}
    (ht : t ∈ Text.actionTypeExprs d) : ∃ applied ∈ a.appliesTo, R t applied.context.toType := by
  obtain ⟨block, hblock, ht⟩ := Option.bind_eq_some_iff.mp (Option.mem_toList.mp ht)
  obtain ⟨applied, happlied, hR⟩ := exists_right_of_rel h hblock
  rw [ht] at hR
  exact ⟨applied, happlied, hR⟩

/-- If schemas resolve, each reference in a type that they declare denotes something known. -/
theorem denotesKnown_of_resolveAll {checks : StackChecks} {extensions : Extensions}
    {schemas : List Schema} {r : ResolvedSchema}
    (h : resolveAllUnder checks extensions schemas = .ok r) {d : Declared}
    (hd : d ∈ declared schemas) {ref : TypeRef} (href : ref ∈ d.references) :
    DenotesKnown (Index.collect schemas).1 extensions (declared schemas) d.ns ref := by
  have hcompleted := completed_of_resolveAll h
  obtain ⟨hfinds, -⟩ := exists_finds_of_resolveAll h
  obtain ⟨t, ht, hleaf⟩ := List.mem_flatMap.mp href
  suffices hunfolds : ∃ u, Unfolds (declared schemas) (IsCyclic (declared schemas)) d.ns t u ∧
      Resolve.Stands (Index.collect schemas).1 extensions u by
    obtain ⟨u, hu, hstands⟩ := hunfolds
    exact denotesKnown_of_unfolds hu hstands hleaf
  cases d with
  | commonType n d =>
    obtain rfl := List.mem_singleton.mp ht
    exact hcompleted.commonType n d hd
  | entityType n d =>
    have hd' := (hcompleted.reflects.entityType n d).mpr hd
    obtain ⟨e, he, hkept⟩ := exists_right_of_rel (hcompleted.entityType n) hd'
    obtain ⟨e', he', hfound⟩ := exists_right_of_rel (hfinds.entityType n) hd'
    obtain rfl := Option.some.inj (he.symm.trans he')
    rcases hkept.types.of_mem ht with hu | ⟨u, hu, htags⟩
    · exact ⟨_, hu, hfound.attributes⟩
    · exact ⟨u, htags, hfound.tags u hu⟩
  | action uid d =>
    have hd' := (hcompleted.reflects.action uid d).mpr hd
    obtain ⟨a, ha, hkept⟩ := exists_right_of_rel (hcompleted.action uid) hd'
    obtain ⟨a', ha', hfound⟩ := exists_right_of_rel (hfinds.action uid) hd'
    obtain rfl := Option.some.inj (ha.symm.trans ha')
    obtain ⟨applied, happlied, hu⟩ := hkept.hasTypes.of_mem ht
    exact ⟨_, hu, (hfound.appliesTo applied happlied).context⟩

end PolicySchema
