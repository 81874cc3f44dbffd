import PolicySchema.Proofs.Except
import PolicySchema.Proofs.Resolve.Framing
import PolicySchema.Proofs.Resolve.PassCondition
import PolicySchema.Proofs.Resolve.StackSpace

/-!
# Nesting after common types are put in place

No type of a resolved schema nests deeper than is allowed. Where no common type refers to itself and
every reference denotes something that is there, a run reports that something is too deep if the
substitution of a type in one of the declarations that it retains is, and only then as long as it
does not find the stack exhausted (`resolveAll_nested`). That holds because every step leaves as
many sets and records open as there were, whether or not it finds problems (`DepthKept`).
-/

namespace PolicySchema.Resolve

open Resolving

variable {α β : Type} {index : Index} {extensions : Extensions} {ds : List Declared}
  {ns : Option Name} {origin : Origin}

/-! ### Declarations -/

/-- The problem is that something is too deep. -/
def TooDeep (cause : Cause) : Prop := cause.fault = .tooDeep

private def Fathoms (index : Index) (ds : List Declared) (extensions : Extensions)
    (x : Resolving α) (P : Prop) : Prop :=
  Clears index ds extensions TooDeep x P fun _ ↦ True

namespace Fathoms

variable {x : Resolving α} {P C : Prop}

private theorem of_iff (h : Fathoms index ds extensions x P) (hP : P ↔ C) :
    Fathoms index ds extensions x C :=
  h.imp id (fun _ ↦ hP) fun _ _ _ ↦ id

private theorem pure (a : α) : Fathoms index ds extensions (Pure.pure a) True :=
  Passes.pure (fun _ ↦ trivial) fun _ _ ↦ trivial

private theorem bind {f : α → Resolving β} (hx : Fathoms index ds extensions x P)
    (hf : ∀ a, Fathoms index ds extensions (f a) C) :
    Fathoms index ds extensions (x >>= f) (P ∧ C) :=
  Passes.bind hx fun a ↦ (hf a).under fun _ ↦ trivial

private theorem map {f : α → β} (hx : Fathoms index ds extensions x P) :
    Fathoms index ds extensions (x >>= fun a ↦ Pure.pure (f a)) P :=
  (hx.bind fun _ ↦ .pure _).of_iff (and_iff_left trivial)

private theorem after {f : α → Resolving β} (hx : Fathoms index ds extensions x True)
    (hf : ∀ a, Fathoms index ds extensions (f a) C) : Fathoms index ds extensions (x >>= f) C :=
  (hx.bind hf).of_iff (and_iff_right trivial)

private theorem report {cause : Cause} (location : Option Location) (h : cause.fault ≠ .tooDeep) :
    Fathoms index ds extensions (Resolving.report cause location) True :=
  passes_report h

end Fathoms

private theorem fathoms_requireEntity (n : Name) :
    Fathoms index ds extensions (requireEntity index origin n) True := by
  unfold requireEntity
  split
  · exact .pure _
  · exact (Fathoms.report origin.location (by simp [Cause.fault])).map

private theorem fathoms_resolveParents (name : Name) (location : Option Location)
    (parents : List Name) :
    Fathoms index ds extensions (resolveParents index name ns location parents) True := by
  induction parents with
  | nil => exact .pure _
  | cons n rest ih =>
    unfold resolveParents
    dsimp only
    split
    · exact ih.map
    · exact (Fathoms.report location (by simp [Cause.fault])).after fun _ ↦ ih

private theorem fathoms_resolveActionParents (uid : Uid) (location : Option Location)
    (parents : List ActionRef) :
    Fathoms index ds extensions (resolveActionParents index uid ns location parents) True := by
  induction parents with
  | nil => exact .pure _
  | cons r rest ih =>
    unfold resolveActionParents
    dsimp only
    split
    · exact ih.map
    · exact (Fathoms.report location (by simp [Cause.fault])).after fun _ ↦ ih

private theorem fathoms_resolveNames (names : List Name) :
    Fathoms index ds extensions (resolveNames index ns origin names) True := by
  induction names with
  | nil => exact .pure _
  | cons n rest ih => exact (fathoms_requireEntity _).after fun _ ↦ ih.map

private theorem fathoms_closeHierarchies (entityTypes : Table Name ResolvedEntityType)
    (actions : Table Uid ResolvedAction) :
    Fathoms index ds extensions (closeHierarchies index entityTypes actions) True := by
  have hentity (names : List Name) :
      Fathoms index ds extensions (reportEntityCycle index names) True := by
    cases names with
    | nil => exact .pure _
    | cons => exact Fathoms.report _ (by simp [Cause.fault])
  have haction (uids : List Uid) :
      Fathoms index ds extensions (reportActionCycle index uids) True := by
    cases uids with
    | nil => exact .pure _
    | cons => exact Fathoms.report _ (by simp [Cause.fault])
  exact (hentity _).after fun _ ↦ (haction _).map

private theorem fathoms_resolveEntries {κ : Type} {f : κ → α → Resolving β} {P : κ × α → Prop}
    (entries : List (κ × α))
    (hf : ∀ e ∈ entries, Fathoms index ds extensions (f e.1 e.2) (P e)) :
    Fathoms index ds extensions (resolveEntries f entries) (∀ e ∈ entries, P e) := by
  induction entries with
  | nil => exact (Fathoms.pure _).of_iff (by simp)
  | cons e rest ih =>
    obtain ⟨hfirst, hothers⟩ := List.forall_mem_cons.mp hf
    exact (hfirst.bind fun _ ↦ (ih hothers).map).of_iff List.forall_mem_cons.symm

section

variable (hindex : index.Reflects ds) (hsharp : Sharp ds extensions TooDeep)

include hindex hsharp

private theorem fathoms_resolveOptionalType {d : Declared} (hd : d ∈ ds)
    (t : Option (TypeExpr TypeRef)) (ht : ∀ u ∈ t, u ∈ d.types) :
    Fathoms index ds extensions (resolveOptionalType index extensions d.ns origin t)
      (∀ u ∈ t, ∃ v, Reads ds extensions none d.ns 0 u v) := by
  cases t with
  | none => exact (Fathoms.pure _).of_iff (by simp)
  | some t =>
    apply (clears_resolveType hindex hsharp hd (ht t rfl)).imp id
    · simp
    · exact fun _ _ _ _ ↦ trivial

private theorem fathoms_resolveEntityType {n : Name} {d : Placed EntityType}
    (hd : .entityType n d ∈ ds) :
    Fathoms index ds extensions (resolveEntityType index extensions n d)
      (∀ t ∈ (Declared.entityType n d).types, ∃ u, Reads ds extensions none d.ns 0 t u) := by
  obtain ⟨⟨body, notes, location⟩, ns⟩ := d
  cases body with
  | standard memberOf shape tags =>
    apply Fathoms.of_iff
    · apply (fathoms_resolveParents n location memberOf).after
      intro parents
      apply (fathoms_resolveOptionalType hindex hsharp hd (shape.map RecordType.toType) fun u hu ↦
        List.mem_append_left _ (Option.mem_toList.mpr hu)).bind
      intro shape'
      exact (fathoms_resolveOptionalType hindex hsharp hd tags fun u hu ↦
        List.mem_append_right _ (Option.mem_toList.mpr hu)).map
    · simp only [Declared.types, Text.entityTypeExprs, Declared.ns, List.forall_mem_append,
        Option.mem_toList, Option.mem_def]
  | enumerated first others =>
    exact (Fathoms.pure _).of_iff (by simp [Declared.types, Text.entityTypeExprs])

private theorem fathoms_resolveAction {uid : Uid} {d : Placed Action} (hd : .action uid d ∈ ds) :
    Fathoms index ds extensions (resolveAction index extensions uid d)
      (∀ t ∈ (Declared.action uid d).types, ∃ u, Reads ds extensions none d.ns 0 t u) := by
  obtain ⟨⟨⟨memberOf, applies⟩, notes, location⟩, ns⟩ := d
  apply (fathoms_resolveActionParents uid location memberOf).after
  intro parents
  apply Fathoms.map
  cases applies with
  | none => exact (Fathoms.pure _).of_iff (by simp [Declared.types, Text.actionTypeExprs])
  | some block =>
    apply (fathoms_resolveNames block.principals).after
    intro principals
    apply (fathoms_resolveNames block.resources).after
    intro resources
    apply Fathoms.map
    apply Fathoms.of_iff
    · apply (fathoms_resolveOptionalType hindex hsharp hd block.context fun u hu ↦
        Option.mem_toList.mpr hu).bind (C := True)
      intro result
      split
      · exact .pure _
      · split
        · exact .pure _
        · exact (Fathoms.report _ (by simp [Cause.fault])).map
    · simp [Declared.types, Text.actionTypeExprs, Declared.ns]

end

/-! ### Whole runs -/

/-- No type that is written in the declarations has a substitution that nests deeper than is
allowed. -/
def Shallow (ds : List Declared) : Prop :=
  ∀ d ∈ ds, ∀ t ∈ d.types, ∀ u, IsSubstitution ds d.ns t u → u.nestingDepth ≤ TypeExpr.maxDepth

private theorem sharp_of_allFound (hindex : index.Reflects ds) (hacyclic : ∀ n, ¬IsCyclic ds n)
    (hfound : AllFound ds extensions) : Sharp ds extensions TooDeep where
  deep _ := rfl
  reference _ hd _ hr _ _ hfaulty := absurd hfaulty (hfound.not_faulty hindex hd hr)
  cyclic n hn := absurd hn (hacyclic n)
  isMutual := fun n ⟨_, _, hnm, hmn⟩ ↦ absurd (hnm.trans hmn) (hacyclic n)

private theorem shallow_iff (hindex : index.Reflects ds) (hacyclic : ∀ n, ¬IsCyclic ds n)
    (hfound : AllFound ds extensions) :
    (∀ n ∈ index.commonTypes.keys, ∃ u, ReadsName ds extensions none 0 n u) ∧
      (∀ e ∈ index.entityTypes.entries, ∀ t ∈ (Declared.entityType e.1 e.2).types,
        ∃ u, Reads ds extensions none e.2.ns 0 t u) ∧
      (∀ e ∈ index.actions.entries, ∀ t ∈ (Declared.action e.1 e.2).types,
        ∃ u, Reads ds extensions none e.2.ns 0 t u) ↔ Shallow ds := by
  have hreads {d : Declared} (hd : d ∈ ds) {t : TypeExpr TypeRef} (ht : t ∈ d.types) :
      (∃ u, Reads ds extensions none d.ns 0 t u) ↔ _ :=
    exists_reads_iff hindex hacyclic hfound hd ht fun _ _ _ _ ↦ nofun
  simp only [Shallow, TypeExpr.nestingDepth_eq_depth]
  constructor
  · rintro ⟨hcommon, hentity, haction⟩ d hd t ht
    cases d with
    | commonType n d =>
      obtain rfl := List.mem_singleton.mp ht
      refine (exists_readsName_iff hindex hacyclic hfound hd).mp (hcommon n ?_)
      exact Table.mem_keys_iff.mpr (hindex.contains_iff.mpr ⟨d, hd⟩)
    | entityType n d =>
      have hmem := Table.find?_eq_some_iff.mp ((hindex.entityType n d).mpr hd)
      exact (hreads hd ht).mp (hentity _ hmem t ht)
    | action uid d =>
      have hmem := Table.find?_eq_some_iff.mp ((hindex.action uid d).mpr hd)
      exact (hreads hd ht).mp (haction _ hmem t ht)
  · intro hall
    refine ⟨fun n hn ↦ ?_, fun e he t ht ↦ ?_, fun e he t ht ↦ ?_⟩
    · obtain ⟨d, hd⟩ := hindex.contains_iff.mp (Table.mem_keys_iff.mp hn)
      exact (exists_readsName_iff hindex hacyclic hfound hd).mpr (hall _ hd _ List.mem_cons_self)
    · have hd := (hindex.entityType e.1 e.2).mp (Table.find?_eq_some_iff.mpr he)
      exact (hreads hd ht).mpr (hall _ hd t ht)
    · have hd := (hindex.action e.1 e.2).mp (Table.find?_eq_some_iff.mpr he)
      exact (hreads hd ht).mpr (hall _ hd t ht)

private theorem clean_resolveIndex_iff (hindex : index.Reflects ds)
    (hacyclic : ∀ n, ¬IsCyclic ds n) (hfound : AllFound ds extensions) {problems : List Problem}
    (hproblems : ∀ p ∈ problems, ¬TooDeep p.cause) :
    Clean TooDeep ((resolveIndex index extensions index.commonTypes.keys).run
      (.start [] index problems)).2 ↔ Shallow ds := by
  have hsharp := sharp_of_allFound hindex hacyclic hfound
  have hcommon := clearsAt_resolveCommonTypes hindex hsharp index.commonTypes.keys
    (fun n hn ↦ hindex.contains_iff.mp (Table.mem_keys_iff.mp hn)) (.start [] index problems)
  have hentities := fathoms_resolveEntries (f := resolveEntityType index extensions) _
    fun e he ↦ fathoms_resolveEntityType hindex hsharp
      ((hindex.entityType e.1 e.2).mp (Table.find?_eq_some_iff.mpr he))
  have hactions := fathoms_resolveEntries (f := resolveAction index extensions) _
    fun e he ↦ fathoms_resolveAction hindex hsharp
      ((hindex.action e.1 e.2).mp (Table.find?_eq_some_iff.mpr he))
  have hrun := hcommon.bind fun _ ↦ (hentities.bind fun entityTypes ↦ (hactions.bind fun actions ↦
    fathoms_closeHierarchies (.ofList entityTypes) (.ofList actions)).of_iff
      (and_iff_left trivial)).under fun _ ↦ trivial
  exact (hrun.passes trivial hproblems (reliable_start _) (ready_start_around _)).1.trans
    (shallow_iff hindex hacyclic hfound)

/-- From every state, the step leads to one with as many sets and records open. -/
def KeepsDepth (x : Resolving α) : Prop := ∀ s, (x.run s).2.depth = s.depth

/-- Resolving types in the declaration `origin` keeps count of the open sets and records. Each step
leads back to the number from before it, and where a set or record is closed one is open. -/
structure DepthKept (index : Index) (extensions : Extensions) (steps : Nat) (ns : Option Name)
    (origin : Origin) : Prop where
  type : ∀ t, KeepsDepth (resolveWith
    (resolveRef index extensions (inlineUpTo index extensions steps) ns origin) origin t)
  fields : ∀ f, KeepsDepth (resolveFieldsWith
    (resolveRef index extensions (inlineUpTo index extensions steps) ns origin) origin f)
  commonType : ∀ n, KeepsDepth (inlineUpTo index extensions steps origin n)
  close : ∀ s s', (openLevel origin).run s = (true, s') →
    (∀ t, 0 < ((resolveWith (resolveRef index extensions (inlineUpTo index extensions steps) ns
      origin) origin t).run s').2.depth) ∧
    ∀ f, 0 < ((resolveFieldsWith (resolveRef index extensions (inlineUpTo index extensions steps) ns
      origin) origin f).run s').2.depth

private theorem depth_of_openLevel {s s' : State} (h : (openLevel origin).run s = (true, s')) :
    s'.depth = s.depth + 1 := by
  obtain ⟨-, checks, -, hrun⟩ | ⟨-, hrun⟩ := run_openLevel_cases origin s
  · rw [hrun] at h
    cases h
  · rw [hrun] at h
    cases h
    rfl

private theorem depthKept (steps : Nat) : DepthKept index extensions steps ns origin := by
  let leaf := resolveRef index extensions (inlineUpTo index extensions steps) ns origin
  have hleaf (level : Nat) (r : TypeRef) : Framed level (leaf r) (Within level) :=
    framed_resolveRef (framed_inlineUpTo _ _) level r
  have htype (t : TypeExpr TypeRef) : KeepsDepth (resolveWith leaf origin t) :=
    fun s ↦ (framed_resolveWith hleaf s.depth t s).rel.depth
  have hfields (f : Fields TypeRef) : KeepsDepth (resolveFieldsWith leaf origin f) :=
    fun s ↦ (framed_resolveFieldsWith hleaf s.depth f s).rel.depth
  refine ⟨htype, hfields, fun n s ↦ (framed_inlineUpTo _ _ s.depth n s).rel.depth,
    fun s s' hopen ↦ ?_⟩
  have hopened := depth_of_openLevel hopen
  exact ⟨fun t ↦ by rw [htype t s']; omega, fun f ↦ by rw [hfields f s']; omega⟩

private theorem exists_tooDeep_iff {schemas : List Schema}
    (hacyclic : ∀ n, ¬IsCyclic (retained (declared schemas)) n)
    (hfound : AllFound (retained (declared schemas)) extensions) :
    (∃ p ∈ reported (resolveAll extensions schemas), p.cause.fault = .tooDeep) ↔
      ¬Shallow (retained (declared schemas)) := by
  have hproblems : ∀ p ∈ (Index.collect schemas).2, ¬TooDeep p.cause := by
    intro p hp hdeep
    have hrepeated := Index.isSome_repeated? hp
    cases hcause : p.cause <;> rw [hcause] at hdeep hrepeated <;> cases hdeep <;> cases hrepeated
  have hreported : reported (resolveAll extensions schemas) = _ := reported_outcome _
  rw [hreported,
    ← clean_resolveIndex_iff (Index.reflects_retained schemas) hacyclic hfound hproblems, Clean]
  push Not
  rfl

end PolicySchema.Resolve

namespace PolicySchema

open Resolve

/-- No type of a resolved schema nests more than 32 deep. Where no common type refers to itself and
every reference denotes something that is there, something is reported as too deep if the
substitution of a type in the retained declarations nests deeper than that. Unless the stack is
found exhausted it is reported only then, for the declaration in which it is. The number of open
sets and records is kept on the way. -/
theorem resolveAll_nested (checks : StackChecks) (extensions : Extensions)
    (schemas : List Schema) :
    (∀ r, resolveAllUnder checks extensions schemas = .ok r →
      ∀ t, r.HasType t → t.nestingDepth ≤ 32) ∧
    ((∀ n, ¬IsCyclic (retained (declared schemas)) n) →
      AllFound (retained (declared schemas)) extensions →
      ((∃ d ∈ retained (declared schemas), ∃ t ∈ d.types, ∃ u,
          IsSubstitution (retained (declared schemas)) d.ns t u ∧ 32 < u.nestingDepth) →
        ∃ p ∈ reported (resolveAllUnder checks extensions schemas), p.cause.fault = .tooDeep) ∧
      (checks.Ample → ∀ p ∈ reported (resolveAllUnder checks extensions schemas),
        p.cause.fault = .tooDeep → (∃ label, p.cause = .tooDeep label) ∧
          ∃ d ∈ retained (declared schemas), ∃ t ∈ d.types, ∃ u,
            IsSubstitution (retained (declared schemas)) d.ns t u ∧ 32 < u.nestingDepth)) ∧
    ∀ steps ns origin, DepthKept (Index.collect schemas).1 extensions steps ns origin := by
  let index := (Index.collect schemas).1
  let start : State := .start checks index (Index.collect schemas).2
  refine ⟨fun r hr t ht ↦ ?_, fun hacyclic hfound ↦ ?_, fun steps ns origin ↦ depthKept steps⟩
  · have hrun : outcome ((resolveIndex index extensions index.commonTypes.keys).run start) =
      .ok r := hr
    obtain ⟨-, rfl⟩ := outcome_eq_ok_iff.mp hrun
    have hstart : Measured start :=
      ⟨Nat.zero_le _, fun _ _ _ h ↦ nomatch State.eq_waiting_of_start h⟩
    rw [t.nestingDepth_eq_depth]
    exact (framed_resolveIndex _ start).result ⟨hstart, rfl⟩ t ht
  · have hiff := exists_tooDeep_iff hacyclic hfound
    constructor
    · rintro ⟨d, hd, t, ht, u, hu, hdeep⟩
      have hreported := hiff.mpr fun hshallow ↦ Nat.not_le.mpr hdeep (hshallow d hd t ht u hu)
      obtain heq | ⟨-, hexhausted⟩ := resolveAllUnder_cases checks extensions schemas
      · rwa [heq]
      · exact hexhausted
    · intro hample p hp hdeep
      refine ⟨exists_label_of_tooDeep hample hp hdeep, ?_⟩
      rw [resolveAllUnder_of_ample hample] at hp
      simpa [Shallow, TypeExpr.maxDepth] using hiff.mp ⟨p, hp, hdeep⟩

private def sets {ρ : Type} (inside : TypeExpr ρ) : Nat → TypeExpr ρ
  | 0 => inside
  | n + 1 => .set (sets inside n)

private def memberWith (tags : Option (TypeExpr TypeRef)) : Schema :=
  ⟨.ofList [(none, { Namespace.empty with
    entityTypes := .ofList [(⟨"Member", by decide⟩, ⟨.standard [] none tags, ∅, none⟩)] })]⟩

private def setsWithin (first second : Nat) : Schema :=
  let inner : Identifier := ⟨"Inner", by decide⟩
  let outer : Identifier := ⟨"Outer", by decide⟩
  ⟨.ofList [(none, { Namespace.empty with
    commonTypes := .ofList [(inner, ⟨sets (.leaf (.primitive .long)) first, ∅, none⟩),
      (outer, ⟨sets (.leaf (.common (.bare inner))) second, ∅, none⟩)] })]⟩

/-- Two common types nest too deep together, though each by itself does not, and though nothing
refers to the second. Where they do not, tags of the second type are as deep as both together. -/
theorem resolveAll_nested_sets :
    let ds := retained (declared [setsWithin 17 16])
    let tags : TypeExpr TypeRef := .leaf (.entityOrCommon (.bare ⟨"Outer", by decide⟩))
    (∀ n, ¬IsCyclic ds n) ∧ AllFound ds .all ∧
      (∃ p ∈ reported (resolveAll .all [setsWithin 17 16]), p.cause.fault = .tooDeep) ∧
      (∃ d ∈ ds, ∃ t ∈ d.types, ∃ u, IsSubstitution ds d.ns t u ∧ 32 < u.nestingDepth) ∧
      ∃ r t, resolveAll .all [setsWithin 17 15, memberWith (some tags)] = .ok r ∧ r.HasType t ∧
        t = sets (.leaf (.primitive .long)) 32 ∧ t.nestingDepth ≤ 32 := by
  intro ds tags
  have hindex : (Index.collect [setsWithin 17 16]).1.Reflects ds := Index.reflects_retained _
  have hacyclic : ∀ n, ¬IsCyclic ds n :=
    hindex.not_isCyclic_of_rank (fun n ↦ if n.basename.text = "Outer" then 1 else 0)
      (by decide +kernel)
  have hfound : AllFound ds .all := hindex.allFound (by decide +kernel)
  have hreported : ∃ p ∈ reported (resolveAll .all [setsWithin 17 16]),
      p.cause.fault = .tooDeep := by decide +kernel
  obtain ⟨p, hp, hcause⟩ := hreported
  obtain ⟨-, hdeep⟩ := ((resolveAll_nested [] .all [setsWithin 17 16]).2.1 hacyclic hfound).2
    (by decide) p hp hcause
  refine ⟨hacyclic, hfound, ⟨p, hp, hcause⟩, hdeep, ?_⟩
  let schemas := [setsWithin 17 15, memberWith (some tags)]
  have htags : ((resolveAll .all schemas).toOption.bind fun r ↦
      (r.entityTypes.find? (.bare ⟨"Member", by decide⟩)).bind fun e ↦ e.tags) =
        some (sets (.leaf (.primitive .long)) 32) := by decide +kernel
  obtain ⟨r, hr, htags⟩ := Option.bind_eq_some_iff.mp htags
  obtain ⟨e, he, ht⟩ := Option.bind_eq_some_iff.mp htags
  rw [Except.toOption_eq_some_iff] at hr
  have htype : r.HasType (sets (.leaf (.primitive .long)) 32) := .tags he ht
  exact ⟨r, _, hr, htype, rfl, (resolveAll_nested [] .all schemas).1 r hr _ htype⟩

private theorem isSubstitution_sets (ds : List Declared) (ns : Option Name) : ∀ n : Nat,
    IsSubstitution ds ns (sets (.leaf (.primitive .long)) n) (sets (.leaf (.primitive .long)) n)
  | 0 => by
    intro v
    constructor
    · rintro (⟨⟨⟩⟩ | ⟨⟨⟩⟩)
      rfl
    · rintro rfl
      exact .atom (.primitive _)
  | n + 1 => by
    intro v
    constructor
    · rintro (_ | _ | hu)
      exact congrArg TypeExpr.set ((isSubstitution_sets ds ns n _).mp hu)
    · rintro rfl
      exact .set ((isSubstitution_sets ds ns n _).mpr rfl)

private theorem acyclic_of_primitive {ds : List Declared}
    (h : ∀ d ∈ ds, ∀ r ∈ d.references, r = .primitive .long) (n : Name) : ¬IsCyclic ds n := by
  intro hn
  obtain ⟨m, ⟨d, r, hd, hr, hm⟩, -⟩ := Relation.TransGen.head'_iff.mp hn
  rw [h _ hd r (List.mem_flatMap.mpr ⟨_, List.mem_cons_self, hr⟩)] at hm
  cases hm

private theorem allFound_of_primitive {ds : List Declared}
    (h : ∀ d ∈ ds, ∀ r ∈ d.references, r = .primitive .long) : AllFound ds .all := by
  intro d hd r hr
  rw [h d hd r hr]
  refine ⟨_, .primitive .long, ?_⟩
  rintro _ ⟨⟩
  trivial

/-- The tags of an entity type that is declared again are not looked at, so that they are too deep
is not reported. Where the stack is exhausted, tags of one set are reported as too deep. -/
theorem not_resolveAll_nested :
    let deep : TypeExpr TypeRef := sets (.leaf (.primitive .long)) 33
    let repeated := [memberWith none, memberWith (some deep)]
    let short := [memberWith (some (.set (.leaf (.primitive .long))))]
    ((∀ n, ¬IsCyclic (declared repeated) n) ∧ AllFound (declared repeated) .all ∧
      (∃ d ∈ declared repeated, ∃ t ∈ d.types, ∃ u,
        IsSubstitution (declared repeated) d.ns t u ∧ 32 < u.nestingDepth) ∧
      ∀ p ∈ reported (resolveAll .all repeated), p.cause.fault ≠ .tooDeep) ∧
    (∀ n, ¬IsCyclic (declared short) n) ∧ AllFound (declared short) .all ∧
      (∀ d ∈ declared short, ∀ t ∈ d.types, ∀ u,
        IsSubstitution (declared short) d.ns t u → u.nestingDepth ≤ 32) ∧
      ∃ p ∈ reported (resolveAllUnder [true] .all short), p.cause.fault = .tooDeep := by
  intro deep repeated short
  have hrepeated : ∀ d ∈ declared repeated, ∀ r ∈ d.references, r = .primitive .long := by
    decide +kernel
  have hshort : ∀ d ∈ declared short, ∀ r ∈ d.references, r = .primitive .long := by
    decide +kernel
  refine ⟨⟨acyclic_of_primitive hrepeated, allFound_of_primitive hrepeated, ?_, by decide +kernel⟩,
    acyclic_of_primitive hshort, allFound_of_primitive hshort, ?_, by decide +kernel⟩
  · let member : Declared := .entityType (.bare ⟨"Member", by decide⟩)
      ⟨⟨.standard [] none (some deep), ∅, none⟩, none⟩
    have hmember : member ∈ declared repeated := by decide +kernel
    exact ⟨member, hmember, deep, by decide +kernel, sets (.leaf (.primitive .long)) 33,
      isSubstitution_sets _ none 33, by decide +kernel⟩
  · have hretained : retained (declared short) = declared short :=
      retained_of_declaredOnce ((Index.collect_eq_nil_iff short).mp (by decide +kernel))
    have hiff : (∃ p ∈ reported (resolveAll .all short), p.cause.fault = .tooDeep) ↔
        ¬Shallow (retained (declared short)) :=
      exists_tooDeep_iff (hretained.symm ▸ acyclic_of_primitive hshort)
        (hretained.symm ▸ allFound_of_primitive hshort)
    rw [hretained] at hiff
    exact not_not.mp (mt hiff.mpr (by decide +kernel))

end PolicySchema
