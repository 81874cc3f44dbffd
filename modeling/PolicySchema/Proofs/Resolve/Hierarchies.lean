import PolicySchema.Proofs.Hierarchy
import PolicySchema.Proofs.Resolve.Found

/-!
# Hierarchies of resolved schemas

A resolved schema gives each entity type and each action its members, direct or through others, and
nothing in it is its own member. Any run ends with at most one problem for each hierarchy, and it
lists just what lies on a cycle of the membership that is declared (`resolveAll_hierarchies`).
-/

namespace PolicySchema

open Relation

/-! ### Tables with memberships -/

section

variable {κ α : Type} [Ord κ]

/-- The value of `a` lists `b` among what it is a member of. -/
def Table.IsMember (t : Table κ α) (memberOf : α → KeySet κ) (a b : κ) : Prop :=
  ∃ v, t.find? a = some v ∧ (memberOf v).contains b = true

/-- Each value lists the keys of its members, direct or through others, and its own is not among
them. -/
structure Table.IsHierarchy (t : Table κ α) (memberOf descendants : α → KeySet κ) : Prop where
  contains_iff : ∀ a v, t.find? a = some v →
    ∀ b, (descendants v).contains b = true ↔ TransGen (t.IsMember memberOf) b a
  irrefl : ∀ a v, t.find? a = some v → (descendants v).contains a = false

end

namespace Resolve

section

variable {κ α : Type} [Ord κ] [Std.TransOrd κ] {t : Table κ α} {memberOf : α → KeySet κ}
  {a b k : κ} {v : α}

private theorem descendants_eq : descendants t memberOf =
    ((Graph.reverse (t.map memberOf)).close, (Graph.reverse (t.map memberOf)).close.loops) := by
  rw [descendants, Graph.closeChecked]
  cases (Graph.reverse (t.map memberOf)).close.loops <;> rfl

private theorem pairwise_descendants :
    (descendants t memberOf).2.Pairwise fun a b ↦ compare a b = .lt := by
  rw [descendants_eq]
  exact Graph.pairwise_loops _

variable [Std.LawfulEqOrd κ]

private theorem contains_map : Table.contains (t.map memberOf) k = t.contains k := by
  simp [Table.contains, Table.find?_map]

private theorem edge_map : Graph.Edge (t.map memberOf) = t.IsMember memberOf := by
  funext a b
  simp [Graph.Edge, Table.IsMember, Table.find?_map]

private theorem contains_descendants_iff (h : t.find? a = some v) :
    (((descendants t memberOf).1.find? a).getD ∅).contains b = true ↔
      TransGen (t.IsMember memberOf) b a := by
  have hnode : Table.contains (t.map memberOf) a = true := by
    rw [contains_map, Table.contains, h]
    rfl
  have hedge : (descendants t memberOf).1.Edge a b ↔ TransGen (t.IsMember memberOf) b a := by
    rw [descendants_eq, Graph.edge_close_iff, Graph.transGen_reverse_iff, and_iff_right hnode,
      edge_map]
  rw [← hedge, Graph.Edge]
  cases (descendants t memberOf).1.find? a with
  | none => simp [KeySet.not_contains_empty]
  | some s => simp

private theorem mem_descendants_iff :
    k ∈ (descendants t memberOf).2 ↔ TransGen (t.IsMember memberOf) k k := by
  rw [descendants_eq, Graph.mem_loops_close_iff, Graph.transGen_reverse_iff, edge_map,
    and_iff_right_iff_imp]
  intro hpath
  obtain ⟨-, ⟨v, hv, -⟩, -⟩ := TransGen.head'_iff.mp hpath
  rw [contains_map, Table.contains, hv]
  rfl

-- Members that have no value in the table lie on no cycle, so that it makes no difference whether
-- they count as members.
private theorem mem_descendants_iff_of_member {member : κ → κ → Prop}
    (h : ∀ a b, member a b ↔ t.IsMember memberOf a b ∧ t.contains b = true) :
    k ∈ (descendants t memberOf).2 ↔ TransGen member k k := by
  have hedge (a b : κ) : (Graph.reverse (t.map memberOf)).Edge a b ↔ member b a := by
    rw [Graph.edge_reverse_iff, edge_map, contains_map, h, and_comm]
  have hreverse : (Graph.reverse (t.map memberOf)).Edge = Function.swap member := by
    funext a b
    exact propext (hedge a b)
  rw [descendants_eq, Graph.mem_loops_close_iff, hreverse, transGen_swap]

private theorem isHierarchy_of_acyclic {close : κ → α → α} {descendantsOf : α → KeySet κ}
    (hmemberOf : ∀ k v, memberOf (close k v) = memberOf v)
    (hdescendants : ∀ k v, descendantsOf (close k v) =
      ((descendants t memberOf).1.find? k).getD ∅)
    (hacyclic : (descendants t memberOf).2 = []) :
    (t.mapEntries close).IsHierarchy memberOf descendantsOf := by
  have hmember : (t.mapEntries close).IsMember memberOf = t.IsMember memberOf := by
    funext a b
    simp [Table.IsMember, Table.find?_mapEntries, hmemberOf]
  have hcontains (a : κ) (v : α) (h : (t.mapEntries close).find? a = some v) (b : κ) :
      (descendantsOf v).contains b = true ↔
        TransGen ((t.mapEntries close).IsMember memberOf) b a := by
    rw [Table.find?_mapEntries, Option.map_eq_some_iff] at h
    obtain ⟨w, hw, rfl⟩ := h
    rw [hdescendants, hmember, contains_descendants_iff hw]
  refine ⟨hcontains, fun a v hv ↦ ?_⟩
  rw [Bool.eq_false_iff, Ne, hcontains a v hv, hmember, ← mem_descendants_iff, hacyclic]
  exact List.not_mem_nil

end

/-! ### Declared memberships -/

/-- The retained declaration of the entity type `a` lists a name that means the declared entity type
`b`. -/
def EntityMember (ds : List Declared) (a b : Name) : Prop :=
  ∃ d, retainedEntityType? ds a = some d ∧
    (∃ n ∈ d.declaration.body.memberOf, MeansEntityType ds d.ns n b) ∧ ∃ d', .entityType b d' ∈ ds

/-- The retained declaration of the action `a` lists a reference that means the declared action
`b`. -/
def ActionMember (ds : List Declared) (a b : Uid) : Prop :=
  ∃ d, retainedAction? ds a = some d ∧
    (∃ r ∈ d.declaration.body.memberOf, Index.actionUid d.ns r = b) ∧ ∃ d', .action b d' ∈ ds

variable {index : Index} {extensions : Extensions} {ds : List Declared}
  {entityTypes : Table Name ResolvedEntityType} {actions : Table Uid ResolvedAction}

private theorem entityMember_iff (hindex : index.Retains ds)
    (hfinds : index.Finds extensions entityTypes actions) (a b : Name) :
    EntityMember ds a b ↔
      entityTypes.IsMember ResolvedEntityType.memberOf a b ∧ entityTypes.contains b = true := by
  have hfound := hfinds.entityType a
  rw [hindex.entityType] at hfound
  rw [hfinds.contains_entityType_iff hindex, EntityMember, Table.IsMember]
  generalize retainedEntityType? ds a = d, entityTypes.find? a = e at hfound ⊢
  cases hfound with
  | none => simp
  | some hfound =>
    simp only [Option.some.injEq, exists_eq_left', hfound.memberOf, hindex.known,
      Index.meansEntityType_iff hindex.known]
    grind [HasEntityType]

private theorem actionMember_iff (hindex : index.Retains ds)
    (hfinds : index.Finds extensions entityTypes actions) (a b : Uid) :
    ActionMember ds a b ↔
      actions.IsMember ResolvedAction.memberOf a b ∧ actions.contains b = true := by
  have hfound := hfinds.action a
  rw [hindex.action] at hfound
  rw [hfinds.contains_action_iff hindex, ActionMember, Table.IsMember]
  generalize retainedAction? ds a = d, actions.find? a = e at hfound ⊢
  cases hfound with
  | none => simp
  | some hfound =>
    simp only [Option.some.injEq, exists_eq_left', hfound.memberOf, hindex.contains_action_iff]
    grind

/-! ### Reports of cycles -/

/-- The problems reported for the cycles of a membership: one that lists in ascending order what
lies on a cycle, or none if nothing does. -/
inductive CycleReport {κ : Type} [Ord κ] (member : κ → κ → Prop) (cause : List κ → Cause) :
    List Problem → Prop where
  | none : (∀ k, ¬TransGen member k k) → CycleReport member cause []
  | cycle {keys : List κ} (location : Option Location) : keys ≠ [] →
      keys.Pairwise (fun a b ↦ compare a b = .lt) → (∀ k, k ∈ keys ↔ TransGen member k k) →
      CycleReport member cause [⟨cause keys, location⟩]

private theorem exists_cycleReport {κ : Type} [Ord κ] {member : κ → κ → Prop}
    {cause : List κ → Cause} (reportCycle : List κ → Resolving Unit)
    (hnil : reportCycle [] = pure ())
    (hcons : ∀ k keys, ∃ location, reportCycle (k :: keys) =
      Resolving.report (cause (k :: keys)) location)
    {keys : List κ} (hascending : keys.Pairwise fun a b ↦ compare a b = .lt)
    (hmem : ∀ k, k ∈ keys ↔ TransGen member k k) :
    ∃ problems, CycleReport member cause problems ∧ ∀ s, (reportCycle keys).run s =
      ((), { s with problems := s.problems ++ problems }) := by
  cases keys with
  | nil =>
    refine ⟨[], .none fun k ↦ (hmem k).not.mp List.not_mem_nil, fun s ↦ ?_⟩
    rw [hnil, List.append_nil]
    rfl
  | cons k keys =>
    obtain ⟨location, hreport⟩ := hcons k keys
    refine ⟨_, .cycle location (List.cons_ne_nil _ _) hascending hmem, fun s ↦ ?_⟩
    rw [hreport]
    rfl

private theorem eq_nil_of_cycleReport_nil {κ : Type} [Ord κ] {member : κ → κ → Prop}
    {cause : List κ → Cause} (h : CycleReport member cause []) {keys : List κ}
    (hmem : ∀ k, k ∈ keys ↔ TransGen member k k) : keys = [] := by
  cases h with
  | none h => exact List.eq_nil_iff_forall_not_mem.mpr fun k hk ↦ h k ((hmem k).mp hk)

/-- Both hierarchies of the resolved schema list the members of each thing in it. -/
structure HasHierarchies (r : ResolvedSchema) : Prop where
  entityTypes : r.entityTypes.IsHierarchy ResolvedEntityType.memberOf ResolvedEntityType.descendants
  actions : r.actions.IsHierarchy ResolvedAction.memberOf ResolvedAction.descendants

/-- The resolved schema that holds what was found, with descendants. -/
def closed (index : Index) (entityTypes : Table Name ResolvedEntityType)
    (actions : Table Uid ResolvedAction) : ResolvedSchema where
  entityTypes := entityTypes.mapEntries fun n e ↦
    { e with descendants :=
        ((descendants entityTypes ResolvedEntityType.memberOf).1.find? n).getD ∅ }
  actions := actions.mapEntries fun u a ↦
    { a with descendants := ((descendants actions ResolvedAction.memberOf).1.find? u).getD ∅ }
  namespaces := index.namespaces

/-- Whatever is reported, the result is the closed schema. -/
theorem closeHierarchies_result (s : State) :
    ((closeHierarchies index entityTypes actions).run s).1 = closed index entityTypes actions :=
  rfl

private theorem hasHierarchies_closed
    (hentity : (descendants entityTypes ResolvedEntityType.memberOf).2 = [])
    (haction : (descendants actions ResolvedAction.memberOf).2 = []) :
    HasHierarchies (closed index entityTypes actions) := by
  constructor
  · dsimp only [closed]
    apply isHierarchy_of_acyclic
    · exact fun _ _ ↦ rfl
    · exact fun _ _ ↦ rfl
    · exact hentity
  · dsimp only [closed]
    apply isHierarchy_of_acyclic
    · exact fun _ _ ↦ rfl
    · exact fun _ _ ↦ rfl
    · exact haction

private theorem finds_closed (hfinds : index.Finds extensions entityTypes actions) :
    index.Finds extensions (closed index entityTypes actions).entityTypes
      (closed index entityTypes actions).actions := by
  constructor
  · intro n
    rw [closed, Table.find?_mapEntries]
    exact rel_map (hfinds.entityType n) fun _ _ h ↦ ⟨h.memberOf, h.attributes, h.tags, h.choices⟩
  · intro uid
    rw [closed, Table.find?_mapEntries]
    exact rel_map (hfinds.action uid) fun _ _ h ↦ ⟨h.memberOf, h.appliesTo⟩

/-- Closing the hierarchies reports the cycles of what was declared. If there are none, each thing
has its members. -/
theorem exists_reports_closeHierarchies (hindex : index.Retains ds)
    (hfinds : index.Finds extensions entityTypes actions) (s : State) :
    ∃ entityCycles actionCycles,
      CycleReport (EntityMember ds) .entityTypeCycle entityCycles ∧
      CycleReport (ActionMember ds) .actionCycle actionCycles ∧
      ((closeHierarchies index entityTypes actions).run s).2.problems =
        s.problems ++ entityCycles ++ actionCycles ∧
      (entityCycles = [] → actionCycles = [] →
        HasHierarchies (closed index entityTypes actions)) := by
  have hentity (n : Name) := mem_descendants_iff_of_member (k := n) (entityMember_iff hindex hfinds)
  have haction (u : Uid) := mem_descendants_iff_of_member (k := u) (actionMember_iff hindex hfinds)
  obtain ⟨entityCycles, hentityReport, hentityRun⟩ :=
    exists_cycleReport (reportEntityCycle index) rfl (fun _ _ ↦ ⟨_, rfl⟩)
      pairwise_descendants hentity
  obtain ⟨actionCycles, hactionReport, hactionRun⟩ :=
    exists_cycleReport (reportActionCycle index) rfl (fun _ _ ↦ ⟨_, rfl⟩)
      pairwise_descendants haction
  have hrun : ((closeHierarchies index entityTypes actions).run s).2 =
      { s with problems := s.problems ++ entityCycles ++ actionCycles } := by
    change ((reportActionCycle index (descendants actions ResolvedAction.memberOf).2).run
      ((reportEntityCycle index (descendants entityTypes ResolvedEntityType.memberOf).2).run s).2).2
        = _
    rw [hentityRun, hactionRun]
  refine ⟨_, _, hentityReport, hactionReport, congrArg State.problems hrun, ?_⟩
  rintro rfl rfl
  exact hasHierarchies_closed (eq_nil_of_cycleReport_nil hentityReport hentity)
    (eq_nil_of_cycleReport_nil hactionReport haction)

/-! ### Whole runs -/

/-- A state in which no body has been walked is steady, if no problem is that of a cycle. -/
theorem steady_start {checks : StackChecks} {problems : List Problem}
    (hproblems : ∀ p ∈ problems, p.cause.fault ≠ .cycle) :
    Steady index extensions (.start checks index problems) where
  settled _ _ _ h := nomatch State.eq_waiting_of_start h
  problems := hproblems

/-- The problems that are reported. -/
def reported : Except (List Problem) ResolvedSchema → List Problem
  | .error problems => problems
  | .ok _ => []

/-- A run has an outcome if it ends without a problem. -/
theorem outcome_eq_ok_iff {run : ResolvedSchema × State} {r : ResolvedSchema} :
    outcome run = .ok r ↔ run.2.problems = [] ∧ run.1 = r := by
  unfold outcome
  split <;> simp_all

/-- A run reports the problems that it ends with. -/
theorem reported_outcome (run : ResolvedSchema × State) :
    reported (outcome run) = run.2.problems := by
  unfold outcome
  split
  · simp_all [reported]
  · rfl

end Resolve

open Resolve

variable {checks : StackChecks} {extensions : Extensions} {schemas : List Schema}
  {r : ResolvedSchema}

/-- The state in which the hierarchies of schemas are closed. -/
def Resolve.closingState (checks : StackChecks) (extensions : Extensions) (schemas : List Schema) :
    State :=
  let index := (Index.collect schemas).1
  ((resolveDeclarations index extensions).run
    ((resolveCommonTypes index extensions index.commonTypes.keys).run
      (.start checks index (Index.collect schemas).2)).2).2

/-- What a run reports besides the problems that it has when the hierarchies are closed, and what it
finds if it reports nothing. -/
theorem exists_closing (checks : StackChecks) (extensions : Extensions) (schemas : List Schema) :
    ∃ entityCycles actionCycles,
      (∀ p ∈ (closingState checks extensions schemas).problems, p.cause.fault ≠ .cycle) ∧
      CycleReport (EntityMember (declared schemas)) .entityTypeCycle entityCycles ∧
      CycleReport (ActionMember (declared schemas)) .actionCycle actionCycles ∧
      reported (resolveAllUnder checks extensions schemas) =
        (closingState checks extensions schemas).problems ++ entityCycles ++ actionCycles ∧
      ∀ r, resolveAllUnder checks extensions schemas = .ok r →
        (Index.collect schemas).1.Finds extensions r.entityTypes r.actions ∧
          HasHierarchies r := by
  let index := (Index.collect schemas).1
  obtain ⟨hindex, hproblems⟩ := Index.retains_collect schemas
  let start : State := .start checks index (Index.collect schemas).2
  obtain ⟨hcommon, -⟩ := runs_iff.mp (runs_resolveCommonTypes index.commonTypes.keys) start
    (steady_start hproblems)
  obtain ⟨hs, hfinds⟩ := runs_iff.mp runs_resolveDeclarations _ hcommon
  -- What is found for the declarations, in the state in which the hierarchies are closed.
  generalize hfound : (resolveDeclarations index extensions).run
    ((resolveCommonTypes index extensions index.commonTypes.keys).run start).2 = found at hs hfinds
  have hstate : closingState checks extensions schemas = found.2 := congrArg Prod.snd hfound
  obtain ⟨⟨entityTypes, actions⟩, s⟩ := found
  obtain ⟨entityCycles, actionCycles, hentity, haction, hreports, hclosed⟩ :=
    exists_reports_closeHierarchies hindex hfinds s
  have hrun : (resolveIndex index extensions index.commonTypes.keys).run start =
      (closeHierarchies index entityTypes actions).run s := by
    rw [run_resolveIndex, Resolving.run_bind, hfound]
  have hresolve : resolveAllUnder checks extensions schemas =
      outcome ((closeHierarchies index entityTypes actions).run s) := congrArg outcome hrun
  rw [hstate]
  refine ⟨entityCycles, actionCycles, hs.problems, hentity, haction, ?_, fun r hr ↦ ?_⟩
  · rw [hresolve, reported_outcome, hreports]
  · rw [hresolve, outcome_eq_ok_iff, hreports, closeHierarchies_result] at hr
    obtain ⟨hnone, rfl⟩ := hr
    obtain ⟨hnone, hactions⟩ := List.append_eq_nil_iff.mp hnone
    obtain ⟨-, hentities⟩ := List.append_eq_nil_iff.mp hnone
    exact ⟨finds_closed hfinds, hclosed hentities hactions⟩

/-- A resolved schema holds what is found for each declaration, with its members. -/
theorem exists_finds_of_resolveAll (h : resolveAllUnder checks extensions schemas = .ok r) :
    (Index.collect schemas).1.Finds extensions r.entityTypes r.actions ∧ HasHierarchies r := by
  obtain ⟨_, _, _, _, _, _, hok⟩ := exists_closing checks extensions schemas
  exact hok r h

/-- A resolved schema gives each entity type and each action its members. The last problems of any
run are those of cycles: at most one for the entity types, and after it at most one for the actions.
They list what lies on a cycle of what is declared, whatever else was reported. -/
theorem resolveAll_hierarchies (checks : StackChecks) (extensions : Extensions)
    (schemas : List Schema) :
    (∀ r, resolveAllUnder checks extensions schemas = .ok r → HasHierarchies r) ∧
    ∃ others entityCycles actionCycles,
      reported (resolveAllUnder checks extensions schemas) =
        others ++ entityCycles ++ actionCycles ∧
      (∀ p ∈ others, p.cause.fault ≠ .cycle) ∧
      CycleReport (EntityMember (declared schemas)) .entityTypeCycle entityCycles ∧
      CycleReport (ActionMember (declared schemas)) .actionCycle actionCycles := by
  obtain ⟨entityCycles, actionCycles, hothers, hentity, haction, hreported, hok⟩ :=
    exists_closing checks extensions schemas
  exact ⟨fun r hr ↦ (hok r hr).2,
    _, entityCycles, actionCycles, hreported, hothers, hentity, haction⟩

private def entityTypesIn (parents : List (Identifier × List Identifier)) : Schema :=
  ⟨.ofList [(none, { Namespace.empty with
    entityTypes := .ofList (parents.map fun (id, parents) ↦
      (id, ⟨.standard (parents.map Name.bare) none none, ∅, none⟩)) })]⟩

/-- The members of members are found once, along whichever way they are reached. -/
theorem resolveAll_hierarchies_diamond :
    let left : Identifier := ⟨"Left", by decide⟩
    let right : Identifier := ⟨"Right", by decide⟩
    let top : Identifier := ⟨"Top", by decide⟩
    let bottom : Identifier := ⟨"Bottom", by decide⟩
    let diamond : Schema :=
      entityTypesIn [(left, [top]), (right, [top]), (bottom, [left, right]), (top, [])]
    ∃ r, resolveAll .all [diamond] = .ok r ∧
      (r.entityTypes.find? (.bare top)).map (fun e ↦ e.descendants.toList) =
        some [.bare bottom, .bare left, .bare right] ∧ HasHierarchies r := by
  intro left right top bottom diamond
  have hdescendants : ((resolveAll .all [diamond]).toOption.bind fun r ↦
      (r.entityTypes.find? (.bare top)).map fun e ↦ e.descendants.toList) =
        some [.bare bottom, .bare left, .bare right] := by decide +kernel
  cases hr : resolveAll .all [diamond] with
  | error e =>
    rw [hr] at hdescendants
    cases hdescendants
  | ok r =>
    rw [hr] at hdescendants
    exact ⟨r, rfl, hdescendants, (resolveAll_hierarchies [] .all [diamond]).1 r hr⟩

/-- An entity type that only leads to a cycle is not listed with those that lie on it. -/
example :
    let a : Identifier := ⟨"A", by decide⟩
    let b : Identifier := ⟨"B", by decide⟩
    let c : Identifier := ⟨"C", by decide⟩
    reported (resolveAll .all [entityTypesIn [(a, [b]), (b, [a]), (c, [a])]]) =
      [⟨.entityTypeCycle [.bare a, .bare b], none⟩] := by
  decide +kernel

end PolicySchema
