import PolicySchema.Proofs.Except
import PolicySchema.Proofs.Resolve.SuccessfulRuns
import PolicySchema.Proofs.Resolve.Framing
import PolicySchema.Proofs.Resolve.PassCondition
import PolicySchema.Proofs.Resolve.StackSpace

/-!
# The order in which common types are visited

Every declared common type is visited once, in some order. A run that found no problem once all are
visited has noted for each of them what it is read as, which does not depend on the order. What is
left to do depends on nothing else. So schemas are resolved to the same, or have problems, in every
order in which the stack does not run out (`resolveVisiting_perm`). This holds unless a common type
that leads to another one and back has the name of an entity type: then it depends on which of the
two is visited first (`not_resolveVisiting_perm`).
-/

namespace PolicySchema.Resolve

variable {index : Index} {extensions : Extensions} {ds : List Declared} {order : List Name}
  {s s' : State}

/-! ### Once every common type is visited -/

/-- Every common type is visited, no problem was found, and what is noted of each common type is
what it is read as. -/
structure Visited (index : Index) (ds : List Declared) (extensions : Extensions) (s : State) :
    Prop where
  reliable : Reliable index ds extensions none 0 s
  settled : ∀ n progress, s.common.find? n = some progress → ∃ outcome, progress = .settled outcome
  problems : s.problems = []

-- Two runs that have visited every common type differ in nothing but the order in which they walked
-- the bodies.
private theorem Visited.agrees (hindex : index.Reflects ds) (h : Visited index ds extensions s)
    (h' : Visited index ds extensions s') : s.Agrees s' where
  common := by
    apply Table.ext_find?
    intro n
    have hknown : (s.common.find? n).isSome = (s'.common.find? n).isSome :=
      (h.reliable.known n).trans (h'.reliable.known n).symm
    cases hs : s.common.find? n with
    | none => simpa [hs] using hknown.symm
    | some progress =>
      obtain ⟨progress', hs'⟩ := Option.isSome_iff_exists.mp (hknown.symm.trans (by rw [hs]; rfl))
      obtain ⟨outcome, rfl⟩ := h.settled n progress hs
      obtain ⟨outcome', rfl⟩ := h'.settled n progress' hs'
      -- Both states note what the common type is read as, and it is read as one type.
      obtain ⟨u, rfl, hu⟩ := h.reliable.settled n outcome hs
      obtain ⟨u', rfl, hu'⟩ := h'.reliable.settled n outcome' hs'
      rw [hs', hindex.readsName_unique hu hu']
  problems := h'.problems.trans h.problems.symm
  depth := h'.reliable.depth.trans h.reliable.depth.symm
  checks := h'.reliable.roomy.trans h.reliable.roomy.symm

private theorem sharp_of_not_isMutual (hmutual : ∀ n, IsMutual ds n → ¬HasEntityType ds n) :
    Sharp ds extensions fun _ ↦ True :=
  ⟨fun _ ↦ trivial, fun _ _ _ _ _ _ _ ↦ trivial, fun _ _ _ ↦ trivial, hmutual⟩

private theorem problems_eq_nil_iff : s.problems = [] ↔ Clean (fun _ ↦ True) s := by
  simp [Clean, List.eq_nil_iff_forall_not_mem]

-- In every order, the common types are visited without a problem exactly if each of them is read as
-- something.
private theorem visited_resolveCommonTypes (hindex : index.Reflects ds)
    (hmutual : ∀ n, IsMutual ds n → ¬HasEntityType ds n)
    (horder : order.Perm index.commonTypes.keys) :
    let s := ((resolveCommonTypes index extensions order).run (.start [] index [])).2
    (s.problems = [] ↔
      ∀ n ∈ index.commonTypes.keys, ∃ u, ReadsName ds extensions none 0 n u) ∧
      (s.problems = [] → Visited index ds extensions s) := by
  intro s
  have hdeclared : ∀ n ∈ order, HasCommonType ds n := fun n hn ↦
    hindex.contains_iff.mp (Table.mem_keys_iff.mp (horder.mem_iff.mp hn))
  have hsharp : Sharp ds extensions fun _ ↦ True := sharp_of_not_isMutual hmutual
  obtain ⟨hpasses, hrun⟩ := (clearsAt_resolveCommonTypes hindex hsharp order hdeclared
    (.start [] index [])).passes trivial nofun (reliable_start []) (ready_start_around [])
  rw [← problems_eq_nil_iff] at hpasses
  refine ⟨hpasses.trans (by simp only [horder.mem_iff]), fun hproblems ↦ ?_⟩
  obtain ⟨hreliable, hlater, hvisited⟩ := hrun (hpasses.mp hproblems)
  refine ⟨hreliable, fun n progress hn ↦ ?_, hproblems⟩
  have hmem : n ∈ order := by
    rw [horder.mem_iff, Table.mem_keys_iff, ← hreliable.known n, hn]
    rfl
  cases progress with
  | waiting => exact absurd hn (hvisited n hmem)
  | walking =>
    -- What is being walked afterwards was being walked before.
    cases State.eq_waiting_of_start ((hlater.walking n).mp hn)
  | settled outcome => exact ⟨outcome, rfl⟩

/-! ### Whole runs -/

private def resolveVisited (index : Index) (extensions : Extensions) :
    Resolving ResolvedSchema := do
  let found ← resolveUses index extensions
  pure (closed index found.1 found.2)

private theorem run_resolveIndex_visited (order : List Name) (s : State) :
    (resolveIndex index extensions order).run s = (resolveVisited index extensions).run
      ((resolveCommonTypes index extensions order).run s).2 :=
  rfl

private theorem relates_resolveVisited {P : Option Location → Option Location → Prop}
    {R : ⦃α : Type⦄ → Resolving α → Resolving α → Prop} (hR : Congruence P R)
    (hP : ∀ location, P location location) :
    R (resolveVisited index extensions) (resolveVisited index extensions) :=
  hR.bind (relates_resolveUses hR (corresponds_refl hR hP)) fun _ ↦ hR.pure _

private theorem problems_of_resolveIndex
    (hend : ((resolveIndex index extensions order).run s).2.problems = []) :
    ((resolveCommonTypes index extensions order).run s).2.problems = [] := by
  rw [run_resolveIndex_visited] at hend
  exact (relates_resolveVisited follows_congruence (fun _ ↦ trivial) _ hend).1

private theorem outcome_eq_of_agrees {order' : List Name}
    (h : ((resolveCommonTypes index extensions order).run s).2.Agrees
      ((resolveCommonTypes index extensions order').run s).2) :
    outcome ((resolveIndex index extensions order').run s) =
      outcome ((resolveIndex index extensions order).run s) := by
  rw [run_resolveIndex_visited, run_resolveIndex_visited]
  obtain ⟨hresult, hend⟩ := relates_resolveVisited Alike.congruence (fun _ ↦ rfl) _ _ h
  exact hend.outcome_eq hresult

private theorem outcome_resolveIndex_perm (hindex : index.Reflects ds)
    (hmutual : ∀ n, IsMutual ds n → ¬HasEntityType ds n) {problems : List Problem}
    (hproblems : problems = []) :
    (∀ order : List Name, order.Perm index.commonTypes.keys →
      ((resolveIndex index extensions order).run (.start [] index problems)).2.problems ≠ []) ∨
    ∀ order : List Name, order.Perm index.commonTypes.keys →
      outcome ((resolveIndex index extensions order).run (.start [] index problems)) =
        outcome ((resolveIndex index extensions index.commonTypes.keys).run
          (.start [] index problems)) := by
  subst hproblems
  by_cases hread : ∀ n ∈ index.commonTypes.keys, ∃ u, ReadsName ds extensions none 0 n u
  · right
    intro order horder
    obtain ⟨hiff, hvisited⟩ := visited_resolveCommonTypes hindex hmutual horder
    obtain ⟨hiff', hvisited'⟩ := visited_resolveCommonTypes hindex hmutual (.refl _)
    exact outcome_eq_of_agrees
      ((hvisited' (hiff'.mpr hread)).agrees hindex (hvisited (hiff.mpr hread)))
  · left
    intro order horder hend
    exact hread ((visited_resolveCommonTypes hindex hmutual horder).1.mp
      (problems_of_resolveIndex hend))

end PolicySchema.Resolve

namespace PolicySchema

open Resolve

/-- Resolves schemas together as one, visiting the common types in the given order, with the given
checks of the stack. -/
def resolveVisiting (checks : StackChecks) (extensions : Extensions) (order : List Name)
    (schemas : List Schema) : Except (List Problem) ResolvedSchema :=
  outcome ((resolveIndex (Index.collect schemas).1 extensions order).run
    (.start checks (Index.collect schemas).1 (Index.collect schemas).2))

/-- The common types that schemas declare, in the order in which they are visited. -/
def commonTypeNames (schemas : List Schema) : List Name :=
  (Index.collect schemas).1.commonTypes.keys

/-- Resolving visits the common types in the order of their names. -/
theorem resolveVisiting_commonTypeNames (checks : StackChecks) (extensions : Extensions)
    (schemas : List Schema) :
    resolveVisiting checks extensions (commonTypeNames schemas) schemas =
      resolveAllUnder checks extensions schemas :=
  rfl

-- Visiting the common types in any order, schemas resolve to what they resolve to with enough
-- stack, unless it runs out.
private theorem resolveVisiting_cases (checks : StackChecks) (extensions : Extensions)
    (order : List Name) (schemas : List Schema) :
    resolveVisiting checks extensions order schemas =
        resolveVisiting [] extensions order schemas ∨
      checks.RunsOut (resolveVisiting checks extensions order schemas) :=
  outcome_resolveIndex_cases checks _ extensions order _

-- With enough stack, there are problems in every order or the schemas are resolved to the same in
-- every order.
private theorem resolveVisiting_perm_roomy (extensions : Extensions) {schemas : List Schema}
    (hmutual : ∀ n, IsMutual (declared schemas) n → ¬HasEntityType (declared schemas) n) :
    (∀ order : List Name, order.Perm (commonTypeNames schemas) →
      ∃ problems, resolveVisiting [] extensions order schemas = .error problems) ∨
    ∃ r, ∀ order : List Name, order.Perm (commonTypeNames schemas) →
      resolveVisiting [] extensions order schemas = .ok r := by
  let start : State := .start [] (Index.collect schemas).1 (Index.collect schemas).2
  have hkept (order : List Name) : (Index.collect schemas).2 ⊆
      ((resolveIndex (Index.collect schemas).1 extensions order).run start).2.problems :=
    have hframed : Framed 0 (resolveIndex _ extensions order) _ := framed_resolveIndex order
    (hframed start).rel.problems.subset
  have hfails {order : List Name} (hend : ((resolveIndex (Index.collect schemas).1 extensions
      order).run start).2.problems ≠ []) :
      ∃ problems, resolveVisiting [] extensions order schemas = .error problems := by
    cases hresult : resolveVisiting [] extensions order schemas with
    | error problems => exact ⟨problems, rfl⟩
    | ok r => exact absurd (outcome_eq_ok_iff.mp hresult).1 hend
  by_cases hcollect : (Index.collect schemas).2 = []
  · rcases outcome_resolveIndex_perm (Index.reflects_collect hcollect) hmutual hcollect with
      hproblems | hsame
    · exact .inl fun order horder ↦ hfails (hproblems order horder)
    · cases hresult : resolveAll extensions schemas with
      | error problems =>
        exact .inl fun order horder ↦ ⟨problems, (hsame order horder).trans hresult⟩
      | ok r => exact .inr ⟨r, fun order horder ↦ (hsame order horder).trans hresult⟩
  · -- A problem with the declarations themselves is there in every order.
    refine .inl fun order _ ↦ hfails fun hend ↦ hcollect ?_
    exact List.subset_nil.mp (hend ▸ hkept order)

/-- Where no common type that leads to another one and back has the name of an entity type, there
are problems in every order in which the common types may be visited, or the schemas are resolved to
the same in every order, whatever the checks of the stack find, unless the stack runs out. -/
theorem resolveVisiting_perm (extensions : Extensions) {schemas : List Schema}
    (hmutual : ∀ n, IsMutual (declared schemas) n → ¬HasEntityType (declared schemas) n) :
    (∀ order : List Name, order.Perm (commonTypeNames schemas) → ∀ checks,
      ∃ problems, resolveVisiting checks extensions order schemas = .error problems) ∨
    ∃ r, ∀ order : List Name, order.Perm (commonTypeNames schemas) → ∀ checks,
      resolveVisiting checks extensions order schemas = .ok r ∨
        checks.RunsOut (resolveVisiting checks extensions order schemas) := by
  rcases resolveVisiting_perm_roomy extensions hmutual with hfails | ⟨r, hsame⟩
  · refine .inl fun order horder checks ↦ ?_
    cases hresult : resolveVisiting checks extensions order schemas with
    | error problems => exact ⟨problems, rfl⟩
    | ok r =>
      obtain ⟨problems, hproblems⟩ := hfails order horder
      obtain heq | hout := resolveVisiting_cases checks extensions order schemas
      · rw [← heq, hresult] at hproblems
        cases hproblems
      · exact absurd (hresult ▸ hout) StackChecks.not_runsOut_ok
  · refine .inr ⟨r, fun order horder checks ↦ ?_⟩
    rw [← hsame order horder]
    exact resolveVisiting_cases checks extensions order schemas

private def holding (n : Identifier) : TypeExpr TypeRef :=
  .record (.cons "held" (.leaf (.entityOrCommon (.bare n))) false ∅ .nil) ∅

-- A schema with two common types, each of which holds what the given name means, and the given
-- entity types.
private def holdingPair (left right : Identifier × Identifier) (entities : List Identifier) :
    Schema :=
  ⟨.ofList [(none, { Namespace.empty with
    commonTypes := .ofList
      [(left.1, ⟨holding left.2, ∅, none⟩), (right.1, ⟨holding right.2, ∅, none⟩)]
    entityTypes := .ofList (entities.map fun n ↦ (n, ⟨.standard [] none none, ∅, none⟩)) })]⟩

/-- A common type that holds itself, where it means the entity type of its name, and one that holds
the first are resolved to the same in both orders. Two common types that hold each other, without
entity types of their names, have a problem in every order. -/
theorem resolveVisiting_perm_holding :
    let left : Identifier := ⟨"Left", by decide⟩
    let right : Identifier := ⟨"Right", by decide⟩
    let loop := holdingPair (left, left) (right, left) [left]
    let pair := holdingPair (left, right) (right, left) []
    (∀ n, IsMutual (declared [loop]) n → ¬HasEntityType (declared [loop]) n) ∧
      (∃ r, resolveAll .all [loop] = .ok r ∧
        resolveVisiting [] .all [.bare left, .bare right] [loop] = .ok r ∧
        resolveVisiting [false] .all [.bare right, .bare left] [loop] = .ok r) ∧
      (∀ n, IsMutual (declared [pair]) n → ¬HasEntityType (declared [pair]) n) ∧
      IsMutual (declared [pair]) (.bare left) ∧
      ∀ order : List Name, order.Perm [.bare left, .bare right] → ∀ checks,
        ∃ problems, resolveVisiting checks .all order [pair] = .error problems := by
  intro left right loop pair
  have hloop : (Index.collect [loop]).1.Reflects (declared [loop]) :=
    Index.reflects_collect (by decide +kernel)
  have hpair : (Index.collect [pair]).1.Reflects (declared [pair]) :=
    Index.reflects_collect (by decide +kernel)
  have hmutual : ∀ n, IsMutual (declared [loop]) n → ¬HasEntityType (declared [loop]) n :=
    fun n hn ↦ absurd hn (hloop.not_isMutual_of_rank
      (fun n ↦ if n.basename.text = "Right" then 1 else 0) (by decide +kernel) n)
  have hnone : ∀ n, IsMutual (declared [pair]) n → ¬HasEntityType (declared [pair]) n := by
    intro n _
    have hknown : (Index.collect [pair]).1.known = ∅ := by decide +kernel
    rw [← hpair.known n, hknown]
    exact Bool.false_ne_true
  have hample {checks : StackChecks} {found : Except (List Problem) ResolvedSchema}
      (h : true ∉ checks) : ¬checks.RunsOut found := fun hout ↦ h hout.1
  refine ⟨hmutual, ?_, hnone, ?_, fun order horder ↦ ?_⟩
  · have hnot : (resolveVisiting [] .all (commonTypeNames [loop]) [loop]).toOption ≠ none := by
      decide +kernel
    rcases resolveVisiting_perm .all hmutual with hfails | ⟨r, hsame⟩
    · exact absurd (Except.toOption_eq_none_iff.mpr (hfails _ (.refl _) _)) hnot
    · have hnames := (hsame _ (.refl _) []).resolve_right (hample (by decide))
      rw [resolveVisiting_commonTypeNames] at hnames
      exact ⟨r, hnames, (hsame _ (by decide +kernel) []).resolve_right (hample (by decide)),
        (hsame _ (by decide +kernel) [false]).resolve_right (hample (by decide))⟩
  · have hrefers {n m : Identifier} (h : .commonType (.bare n) ⟨⟨holding m, ∅, none⟩, none⟩ ∈
        declared [pair] ∧ ((Index.collect [pair]).1.target none
          (.entityOrCommon (.bare m))).referent? = some (.common (.bare m))) :
        RefersTo (declared [pair]) (.bare n) (.bare m) :=
      ⟨_, _, h.1, List.mem_cons_self, hpair.denotes_iff.mpr h.2⟩
    exact ⟨.bare right, by decide, .single (hrefers (by decide +kernel)),
      .single (hrefers (by decide +kernel))⟩
  · have hnot : (resolveVisiting [] .all (commonTypeNames [pair]) [pair]).toOption = none := by
      decide +kernel
    rcases resolveVisiting_perm .all hnone with hfails | ⟨r, hsame⟩
    · exact hfails order (horder.trans (by decide +kernel))
    · rw [Except.toOption_eq_none_iff] at hnot
      simp [(hsame _ (.refl _) []).resolve_right (hample (by decide))] at hnot

/-- Two common types hold each other, and the second has the name of an entity type. If the first
one is visited first then there is a problem: in it, the second one holds an entity type of the
name of the first. If the second one is visited first, there is none. Where a common type holds one
that holds nothing else, and there is only stack for one body at a time, there is a problem if it is
visited first and none if the other one is. -/
theorem not_resolveVisiting_perm :
    let left : Identifier := ⟨"Left", by decide⟩
    let right : Identifier := ⟨"Right", by decide⟩
    let schemas := [holdingPair (left, right) (right, left) [right]]
    let chain := [holdingPair (left, right) (right, ⟨"Long", by decide⟩) []]
    commonTypeNames schemas = [.bare left, .bare right] ∧
      (∃ problems,
        resolveVisiting [] .all [.bare left, .bare right] schemas = .error problems) ∧
      (∃ r, resolveVisiting [] .all [.bare right, .bare left] schemas = .ok r) ∧
      commonTypeNames chain = [.bare left, .bare right] ∧
      (∃ problems,
        resolveVisiting [false, false, true] .all [.bare left, .bare right] chain =
          .error problems) ∧
      ∃ r, resolveVisiting [false, false, false, false] .all [.bare right, .bare left] chain =
        .ok r := by
  intro left right schemas chain
  have hfails : (resolveVisiting [] .all [.bare left, .bare right] schemas).toOption = none := by
    decide +kernel
  have hsucceeds :
      (resolveVisiting [] .all [.bare right, .bare left] schemas).toOption.isSome = true := by
    decide +kernel
  have hruns_out : (resolveVisiting [false, false, true] .all [.bare left, .bare right]
      chain).toOption = none := by decide +kernel
  have hsuffices : (resolveVisiting [false, false, false, false] .all [.bare right, .bare left]
      chain).toOption.isSome = true := by decide +kernel
  obtain ⟨r, hr⟩ := Option.isSome_iff_exists.mp hsucceeds
  obtain ⟨r', hr'⟩ := Option.isSome_iff_exists.mp hsuffices
  exact ⟨by decide +kernel, Except.toOption_eq_none_iff.mp hfails,
    ⟨r, Except.toOption_eq_some_iff.mp hr⟩, by decide +kernel,
    Except.toOption_eq_none_iff.mp hruns_out, r', Except.toOption_eq_some_iff.mp hr'⟩

end PolicySchema
