import PolicySchema.Proofs.Resolve.Completed
import PolicySchema.Proofs.Resolve.Congruence
import PolicySchema.Proofs.Resolve.Faults

/-!
# Runs that follow other runs

A step follows another one if it does the same whenever the other ends without a problem
(`Follows`). Declarations may be stored with other references and in other places: as long as each
reference still denotes what it did, the runs follow one another (`outcome_of_restates`).
-/

namespace PolicySchema.Resolve

open Resolving

variable {α β : Type}

/-! ### Steps -/

/-- If the first step ends without a problem, then it began without one, and the second step does
the same. -/
def Follows (x x' : Resolving α) : Prop :=
  ∀ s, (x.run s).2.problems = [] → s.problems = [] ∧ x'.run s = x.run s

private theorem follows_bind {x x' : Resolving α} {f f' : α → Resolving β} (hx : Follows x x')
    (hf : ∀ a, Follows (f a) (f' a)) : Follows (x >>= f) (x' >>= f') := by
  intro s hs
  obtain ⟨hmiddle, hsecond⟩ := hf (x.run s).1 (x.run s).2 hs
  obtain ⟨hbefore, hfirst⟩ := hx s hmiddle
  refine ⟨hbefore, ?_⟩
  rw [run_bind, run_bind, hfirst, hsecond]

private theorem follows_report (cause : Cause) (location : Option Location) (x' : Resolving Unit) :
    Follows (report cause location) x' :=
  fun s hs ↦ absurd hs (List.append_ne_nil_of_right_ne_nil s.problems (List.cons_ne_nil _ _))

/-- Anything follows a rejected step too. -/
theorem follows_reject (cause : Cause) (origin : Origin) (x' : Resolving (Option α)) :
    Follows (reject cause origin) x' :=
  fun s hs ↦ absurd hs (List.append_ne_nil_of_right_ne_nil s.problems (List.cons_ne_nil _ _))

/-- Runs follow one another wherever the problems would be. -/
theorem follows_congruence : Congruence (fun _ _ ↦ True) fun _ ↦ Follows where
  nowhere := trivial
  pure _ _ hs := ⟨hs, rfl⟩
  bind := follows_bind
  read hf s hs := hf s s rfl rfl s hs
  report _ _ := follows_report _ _ _
  withinStack := by
    intro cause location location' _ _ s hs
    obtain ⟨common, problems, depth, walked, _ | ⟨_ | _, checks⟩⟩ := s
    · exact ⟨hs, rfl⟩
    · exact ⟨hs, rfl⟩
    · exact absurd hs (List.append_ne_nil_of_right_ne_nil problems (List.cons_ne_nil _ _))
  settle _ _ _ hs := ⟨hs, rfl⟩
  setDepth _ _ hs := ⟨hs, rfl⟩
  noteWalk _ _ hs := ⟨hs, rfl⟩
  closeLevel _ hs := ⟨hs, rfl⟩

/-! ### References -/

variable {index index' : Index} {extensions : Extensions} {ns : Option Name}
  {origin origin' : Origin}

/-- What `r` denotes, looked up in `index`, is what `r'` denotes, looked up in `index'`. -/
def Leads (index index' : Index) (ns : Option Name) (r r' : TypeRef) : Prop :=
  ∀ x, (index.target ns r).referent? = some x → (index'.target ns r').referent? = some x

private theorem follows_resolveRef (hknown : ∀ n, index'.known.contains n = index.known.contains n)
    {inner inner' : Inliner} {r r' : TypeRef} (hr : Leads index index' ns r r')
    (horigin : origin.Matches (fun _ _ ↦ True) origin')
    (hinner : ∀ n, Follows (inner origin n) (inner' origin' n)) :
    Follows (resolveRef index extensions inner ns origin r)
      (resolveRef index' extensions inner' ns origin' r') := by
  unfold resolveRef
  cases htarget : index.target ns r with
  | atom a =>
    have hr' := hr (.atom a) (by rw [htarget]; rfl)
    obtain ⟨p, rfl⟩ | ⟨n, rfl, hn⟩ := Index.atom_of_target htarget
    · rw [Index.target_of_primitive hr']
      exact follows_congruence.pure _
    · -- The first index knows the entity type, and so does the second.
      obtain htarget' | ⟨htarget', -⟩ := Index.target_of_entity hr'
      · simp only [htarget', entityAtom_of_known ((hknown n).trans hn)]
        exact follows_congruence.pure _
      · rw [htarget']
        exact follows_congruence.pure _
  | common n =>
    rw [Target.eq_common_of_referent? (hr (.common n) (by rw [htarget]; rfl))]
    exact hinner n
  | entity n =>
    obtain htarget' | ⟨htarget', hn⟩ :=
      Index.target_of_entity (hr (.atom (.entity n)) (by rw [htarget]; rfl))
    · rw [htarget']
      exact relates_entityAtom follows_congruence hknown horigin n
    · simp only [htarget', entityAtom_of_known ((hknown n).symm.trans hn)]
      exact follows_congruence.pure _
  | extension id =>
    rw [Index.target_of_extension (hr (.atom (.extension id)) (by rw [htarget]; rfl))]
    exact relates_extensionAtom follows_congruence horigin id
  | missingCommon n => exact follows_reject _ _ _

/-! ### Restated declarations -/

/-- The second declaration is the first one with its body changed, in some place. -/
inductive Placed.Becomes (g : α → α) (d : Placed α) : Placed α → Prop where
  | changed (location : Option Location) :
      Becomes g d ⟨⟨g d.declaration.body, d.declaration.annotations, location⟩, d.ns⟩

/-- The second index holds the declarations of the first one, which are those in `ds`, with each
reference replaced by one that denotes the same. -/
structure Restates (f : TypeRef → TypeRef) (ds : List Declared) (index index' : Index) : Prop
    extends Index.Rel (Placed.Becomes (·.mapRefs f)) (Placed.Becomes (·.mapRefs f))
      (Placed.Becomes (·.mapRefs f)) index index' where
  reflects : index.Reflects ds
  leads : ∀ d ∈ ds, ∀ r ∈ d.references, Leads index index' d.ns r (f r)

section

variable {f : TypeRef → TypeRef} {ds : List Declared} {L : TypeRef → TypeRef → Prop}

private theorem leafwise_mapRefs_option {t : Option (TypeExpr TypeRef)}
    (h : ∀ u ∈ t, ∀ r ∈ u.leaves, L r (f r)) :
    Option.Rel (TypeExpr.Leafwise L) t (t.map (·.mapRefs f)) := by
  cases t with
  | none => exact .none
  | some t => exact .some (TypeExpr.leafwise_mapRefs (h t rfl))

private theorem leafwise_mapRefs_entityType {e : EntityType}
    (h : ∀ t ∈ Text.entityTypeExprs e, ∀ r ∈ t.leaves, L r (f r)) :
    e.Leafwise L (e.mapRefs f) := by
  cases e with
  | standard memberOf shape tags =>
    have hshape := leafwise_mapRefs_option (t := shape.map RecordType.toType)
      fun u hu ↦ h u (List.mem_append_left _ (Option.mem_toList.mpr hu))
    refine .standard ?_ (leafwise_mapRefs_option fun u hu ↦
      h u (List.mem_append_right _ (Option.mem_toList.mpr hu)))
    cases shape <;> exact hshape
  | enumerated first others => exact .enumerated first others

private theorem leafwise_mapRefs_action {a : Action}
    (h : ∀ t ∈ Text.actionTypeExprs a, ∀ r ∈ t.leaves, L r (f r)) :
    a.Leafwise L (a.mapRefs f) := by
  obtain ⟨memberOf, applies⟩ := a
  cases applies with
  | none => exact .group memberOf
  | some block =>
    exact .applies (leafwise_mapRefs_option fun u hu ↦ h u (Option.mem_toList.mpr hu))

private theorem matches_of_becomes {g : α → α} {o o' : Option (Placed α)}
    {B : Option Name → α → α → Prop} (ho : Option.Rel (Placed.Becomes g) o o')
    (hB : ∀ d ∈ o, B d.ns d.declaration.body (g d.declaration.body)) :
    Option.Rel (Placed.Matches (fun _ _ ↦ True) B) o o' := by
  cases ho with
  | none => exact .none
  | some hbody =>
    obtain ⟨location⟩ := hbody
    exact .some (.placed (.declared (hB _ rfl) trivial))

variable (h : Restates f ds index index')

include h

private theorem corresponds_of_restates :
    Corresponds (fun _ _ ↦ True) (fun _ ↦ Follows) (Leads index index') extensions index index'
    where
  known := h.known
  commonType n := matches_of_becomes (h.commonType n) fun d hd ↦
    TypeExpr.leafwise_mapRefs fun r hr ↦ h.leads _ ((h.reflects.commonType n d).mp hd) r
      (List.mem_flatMap.mpr ⟨_, List.mem_cons_self, hr⟩)
  entityType n := matches_of_becomes (h.entityType n) fun d hd ↦
    leafwise_mapRefs_entityType fun t ht r hr ↦ h.leads _ ((h.reflects.entityType n d).mp hd) r
      (List.mem_flatMap.mpr ⟨t, ht, hr⟩)
  action uid := matches_of_becomes (h.action uid) fun d hd ↦
    leafwise_mapRefs_action fun t ht r hr ↦ h.leads _ ((h.reflects.action uid d).mp hd) r
      (List.mem_flatMap.mpr ⟨t, ht, hr⟩)
  reference hr horigin hinner := follows_resolveRef h.known hr horigin hinner

/-- Restated declarations are resolved to the same entity types and actions. -/
theorem outcome_of_restates {checks : StackChecks} {r : ResolvedSchema}
    (hr : outcome ((resolveIndex index extensions index.commonTypes.keys).run
      (.start checks index [])) = .ok r) :
    ∃ r', outcome ((resolveIndex index' extensions index'.commonTypes.keys).run
        (.start checks index' [])) = .ok r' ∧
      r'.entityTypes = r.entityTypes ∧ r'.actions = r.actions := by
  rw [run_resolveIndex_eq, outcome_eq_ok_iff] at hr
  obtain ⟨hend, rfl⟩ := hr
  obtain ⟨-, hrun⟩ := relates_resolveParts follows_congruence (corresponds_of_restates h) _ _ hend
  refine ⟨closed index' _ _, ?_, rfl, rfl⟩
  rw [run_resolveIndex_eq, h.start_eq, keys_eq_of_rel h.commonType, hrun, outcome_eq_ok_iff]
  exact ⟨hend, rfl⟩

end

end PolicySchema.Resolve
