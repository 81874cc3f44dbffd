import PolicySchema.Proofs.Nesting
import PolicySchema.Proofs.Resolve.Faults
import PolicySchema.Proofs.Resolve.Inlining

/-!
# What a run reports

Where no common type refers to itself and all types fit, a step reports the faults of what it
resolves itself, and the faults in the bodies of the common types that it is the first to walk
(`Adds`). What it gives is exactly what its part of the schema resolves to (`Reports`). Where the
stack is found exhausted, faults and results may be missing, but nothing else is reported, besides
that something is too deep, and nothing else is given.
-/

namespace PolicySchema.Resolve

open Resolving

variable {α β : Type}

/-! ### Faults that are looked up -/

/-- What is wrong with what a reference leads to, in a declaration with the words `label`. -/
def Target.cause? (index : Index) (extensions : Extensions) (label : String) :
    Target → Option Cause
  | .atom _ | .common _ => none
  | .entity n => if index.known.contains n then none else some (.unknownEntityType n label)
  | .extension id =>
    if !isKnownExtension id.text then some (.unknownExtension id.text label)
    else if !extensions.isEnabled id.text then some (.disabledExtension id.text label)
    else none
  | .missingCommon n => some (.unknownCommonType n label)

namespace Index

/-- The problem with a reference that is written in the namespace `ns`. -/
def fault? (index : Index) (extensions : Extensions) (ns : Option Name) (origin : Origin)
    (r : TypeRef) : Option Problem :=
  ((index.target ns r).cause? index extensions origin.label).map (⟨·, origin.location⟩)

/-- The problems with the references in the body of a common type. -/
def bodyFaults (index : Index) (extensions : Extensions) (n : Name) : List Problem :=
  (index.commonTypes.find? n).elim [] fun d ↦ d.declaration.body.leaves.filterMap
    (index.fault? extensions d.ns (commonOrigin n d.declaration.location))

end Index

/-- What is wrong with a reference is found by looking it up. -/
theorem Index.Reflects.faultyReference_iff {index : Index} {ds : List Declared}
    {extensions : Extensions} {ns : Option Name} {label : String} {r : TypeRef} {cause : Cause}
    (h : index.Reflects ds) : FaultyReference ds extensions ns label r cause ↔
      (index.target ns r).cause? index extensions label = some cause := by
  constructor
  · rintro (⟨hr, hn⟩ | hr | ⟨hr, hknown⟩ | ⟨hr, hknown, henabled⟩)
    · obtain htarget | ⟨-, hm⟩ := Index.target_of_entity (h.denotes_iff.mp hr)
      · rw [htarget, Target.cause?, if_neg (mt (h.known _).mp hn)]
      · exact absurd ((h.known _).mp hm) hn
    · simp only [h.denotes_iff] at hr
      cases htarget : index.target ns (.common _) <;> rw [htarget] at hr
      case missingCommon m =>
        obtain rfl := TypeRef.common.inj (Index.eq_common_of_target htarget)
        rfl
      all_goals exact absurd rfl (hr _)
    · rw [Index.target_of_extension (h.denotes_iff.mp hr)]
      simp [Target.cause?, hknown]
    · rw [Index.target_of_extension (h.denotes_iff.mp hr)]
      simp [Target.cause?, hknown, henabled]
  · intro hcause
    have denoted {x : Referent} (hx : (index.target ns r).referent? = some x) :
        Denotes ds ns r x := h.denotes_iff.mpr hx
    cases htarget : index.target ns r with
    | atom a => simp [htarget, Target.cause?] at hcause
    | common n => simp [htarget, Target.cause?] at hcause
    | entity n =>
      rw [htarget, Target.cause?] at hcause
      split at hcause <;> cases hcause
      next hn =>
      exact .unknownEntityType (denoted (by rw [htarget]; rfl)) (mt (h.known n).mpr hn)
    | extension id =>
      have hr : Denotes ds ns r (.atom (.extension id)) := denoted (by rw [htarget]; rfl)
      rw [htarget, Target.cause?] at hcause
      split at hcause
      · next hunknown =>
        cases hcause
        exact .unknownExtension hr (by simpa using hunknown)
      · next hknown =>
        split at hcause <;> cases hcause
        next hdisabled =>
        exact .disabledExtension hr (by simpa using hknown) (by simpa using hdisabled)
    | missingCommon n =>
      rw [htarget, Target.cause?, Option.some.injEq] at hcause
      subst hcause
      obtain rfl := Index.eq_common_of_target htarget
      refine .unknownCommonType fun x hx ↦ ?_
      rw [h.denotes_iff, htarget] at hx
      cases hx

/-! ### States -/

/-- The problems that are found are those that are expected, in some order, if there is enough
stack. Otherwise some of these may be missing, and it may be found that something is too deep. -/
structure Covers (checks : StackChecks) (found expected : List Problem) : Prop where
  count_le : ∀ p, p.cause.fault ≠ .tooDeep → found.count p ≤ expected.count p
  perm : checks.Ample → found.Perm expected

namespace Covers

variable {checks : StackChecks} {found expected expected' : List Problem}

/-- The same problems may be added to what is found and to what is expected. -/
theorem append (h : Covers checks found expected) (more : List Problem) :
    Covers checks (found ++ more) (expected ++ more) where
  count_le p hp := by
    have hle := h.count_le p hp
    rw [List.count_append, List.count_append]
    omega
  perm hample := (h.perm hample).append_right more

end Covers

/-- The result is what has the property. It is missing if nothing has, or if there is not enough
stack. -/
structure Decides (checks : StackChecks) (P : α → Prop) (result : Option α) : Prop where
  sound : ∀ a, result = some a → P a
  complete : checks.Ample → ∀ a, P a → result = some a

namespace Decides

variable {checks : StackChecks} {P Q : α → Prop} {result : Option α}

/-- A result that is exactly what has the property is what it should be, whatever the stack. -/
theorem of_iff (h : ∀ a, result = some a ↔ P a) : Decides checks P result where
  sound a := (h a).mp
  complete _ a := (h a).mpr

/-- Where the stack is exhausted, there may be no result. -/
theorem of_exhausted (h : ¬checks.Ample) : Decides checks P none where
  sound _ := nofun
  complete hample := absurd hample h

/-- An equivalent property decides the same result. -/
theorem congr (h : Decides checks P result) (hPQ : ∀ a, P a ↔ Q a) : Decides checks Q result where
  sound a ha := (hPQ a).mp (h.sound a ha)
  complete hample a ha := h.complete hample a ((hPQ a).mpr ha)

/-- A function of a decided result is decided by the images. -/
theorem map (h : Decides checks P result) (f : α → β) :
    Decides checks (fun b ↦ ∃ a, P a ∧ b = f a) (result.map f) where
  sound b hb := by
    obtain ⟨a, ha, rfl⟩ := Option.map_eq_some_iff.mp hb
    exact ⟨a, h.sound a ha, rfl⟩
  complete hample := by
    rintro _ ⟨a, ha, rfl⟩
    rw [h.complete hample a ha, Option.map_some]

end Decides

/-- The outcome is what the body of the common type resolves to, with its depth. -/
def IsOutcome (checks : StackChecks) (ds : List Declared) (extensions : Extensions) (n : Name)
    (outcome : Option (ResolvedType × Nat)) : Prop :=
  Decides checks (fun found ↦ ResolvesName ds extensions n found.1 ∧ found.2 = found.1.depth)
    outcome

/-- What is noted of the common types is exactly what they resolve to, and the walked ones are those
that are not left to be walked, unless the stack was exhausted. The checks of the stack that are
left are the last ones of all. -/
structure Exact (checks : StackChecks) (index : Index) (extensions : Extensions)
    (ds : List Declared) (s : State) : Prop where
  reflects : index.Reflects ds
  known : ∀ n, (s.common.find? n).isSome = (index.commonTypes.find? n).isSome
  settled : ∀ n outcome, s.common.find? n = some (.settled outcome) →
    IsOutcome checks ds extensions n outcome
  walked : ∀ n ∈ s.walked, ∃ progress, s.common.find? n = some progress ∧ progress ≠ .waiting
  noted : checks.Ample → ∀ n progress, s.common.find? n = some progress → progress ≠ .waiting →
    n ∈ s.walked
  nodup : s.walked.Nodup
  pending : s.checks <:+ checks

namespace Exact

variable {checks : StackChecks} {index : Index} {extensions : Extensions} {ds : List Declared}
  {s s' : State}

/-- If a check that is left finds the stack exhausted then there is not enough of it. -/
theorem not_ample (h : Exact checks index extensions ds s) (hmem : true ∈ s.checks) :
    ¬checks.Ample :=
  fun hample ↦ hample (h.pending.subset hmem)

/-- A state in which no more or fewer bodies were walked is as exact. -/
theorem of_eq (h : Exact checks index extensions ds s) (hcommon : s'.common = s.common)
    (hwalked : s'.walked = s.walked) (hchecks : s'.checks <:+ s.checks) :
    Exact checks index extensions ds s' where
  reflects := h.reflects
  known := by rw [hcommon]; exact h.known
  settled := by rw [hcommon]; exact h.settled
  walked := by rw [hcommon, hwalked]; exact h.walked
  noted := by rw [hcommon, hwalked]; exact h.noted
  nodup := hwalked ▸ h.nodup
  pending := hchecks.trans h.pending

end Exact

/-- Between the states some bodies were walked. The problems that were added are those in `own` and
those in these bodies. -/
def Adds (checks : StackChecks) (index : Index) (extensions : Extensions) (s s' : State)
    (own : List Problem) : Prop :=
  ∃ names, s'.walked = names ++ s.walked ∧
    Covers checks s'.problems (s.problems ++ own ++ names.flatMap (index.bodyFaults extensions))

namespace Adds

variable {checks : StackChecks} {index : Index} {extensions : Extensions} {s s' s'' : State}
  {own own' : List Problem}

/-- What is added while no body is walked. -/
theorem of_eq (hwalked : s'.walked = s.walked) (hproblems : s'.problems = s.problems ++ own) :
    Adds checks index extensions s s' own := by
  refine ⟨[], hwalked, ?_⟩
  rw [hproblems, List.flatMap_nil, List.append_nil]
  exact ⟨fun _ _ ↦ Nat.le_refl _, fun _ ↦ .refl _⟩

/-- Nothing is added on the way from a state to itself. -/
theorem refl (s : State) : Adds checks index extensions s s [] :=
  of_eq rfl (List.append_nil _).symm

/-- Where the stack is exhausted, whatever should be added may be missing, and it may be reported
that something is too deep. -/
theorem of_exhausted (h : ¬checks.Ample) (names : List Name)
    (hwalked : s'.walked = names ++ s.walked) {deep : List Problem}
    (hproblems : s'.problems = s.problems ++ deep) (hdeep : ∀ p ∈ deep, p.cause.fault = .tooDeep) :
    Adds checks index extensions s s' own := by
  refine ⟨names, hwalked, ⟨fun p hp ↦ ?_, fun hample ↦ absurd hample h⟩⟩
  have hnone : deep.count p = 0 := List.count_eq_zero.mpr fun hmem ↦ hp (hdeep p hmem)
  simp only [hproblems, List.count_append, hnone]
  omega

/-- What is added twice is added in order. -/
theorem trans (h : Adds checks index extensions s s' own)
    (h' : Adds checks index extensions s' s'' own') :
    Adds checks index extensions s s'' (own ++ own') := by
  obtain ⟨names, hwalked, hproblems⟩ := h
  obtain ⟨names', hwalked', hproblems'⟩ := h'
  refine ⟨names' ++ names, by rw [hwalked', hwalked, List.append_assoc], ?_⟩
  constructor
  · intro p hp
    have hfirst := hproblems.count_le p hp
    have hsecond := hproblems'.count_le p hp
    simp only [List.flatMap_append, List.count_append] at hfirst hsecond ⊢
    omega
  · intro hample
    refine (hproblems'.perm hample).trans
      ((((hproblems.perm hample).append_right own').append_right _).trans ?_)
    rw [List.perm_iff_count]
    intro p
    simp only [List.flatMap_append, List.count_append]
    omega

end Adds

/-! ### Steps -/

/-- From the state `s`, with `level` sets and records open, the step gives a result and adds
problems of its own that have the property together, and it leaves as many sets and records open. -/
def ReportsAt (checks : StackChecks) (index : Index) (extensions : Extensions)
    (ds : List Declared) (steps : Nat) (front : Name → Prop) (level : Nat) (s : State)
    (x : Resolving α) (Q : α → List Problem → Prop) : Prop :=
  Exact checks index extensions ds s → Ready steps front s → s.depth = level →
    ∃ own, Exact checks index extensions ds (x.run s).2 ∧ Later s (x.run s).2 ∧
      (x.run s).2.depth = level ∧ Adds checks index extensions s (x.run s).2 own ∧ Q (x.run s).1 own

/-- The step gives results and adds problems that have the property together, from any state. -/
def Reports (checks : StackChecks) (index : Index) (extensions : Extensions) (ds : List Declared)
    (steps : Nat) (front : Name → Prop) (level : Nat) (x : Resolving α)
    (Q : α → List Problem → Prop) : Prop :=
  ∀ s, ReportsAt checks index extensions ds steps front level s x Q

variable {checks : StackChecks} {index : Index} {extensions : Extensions} {ds : List Declared}
  {steps : Nat} {front : Name → Prop} {level : Nat}

namespace ReportsAt

variable {s : State}

/-- What is known of the reports of a run may be weakened. -/
theorem imp {x : Resolving α} {Q R : α → List Problem → Prop}
    (h : ReportsAt checks index extensions ds steps front level s x Q)
    (hQ : Exact checks index extensions ds s → Ready steps front s → ∀ a own, Q a own → R a own) :
    ReportsAt checks index extensions ds steps front level s x R := by
  intro hexact hready hdepth
  obtain ⟨own, hexact', hlater, hdepth', hadds, ha⟩ := h hexact hready hdepth
  exact ⟨own, hexact', hlater, hdepth', hadds, hQ hexact hready _ own ha⟩

/-- A value reports nothing. -/
theorem pure {a : α} {Q : α → List Problem → Prop}
    (h : Exact checks index extensions ds s → Ready steps front s → Q a []) :
    ReportsAt checks index extensions ds steps front level s (Pure.pure a : Resolving α) Q :=
  fun hexact hready hdepth ↦ ⟨[], hexact, .refl s, hdepth, .refl s, h hexact hready⟩

/-- The second step runs in the state that the first leads to, and adds its problems to those of
the first. -/
theorem bind {x : Resolving α} {f : α → Resolving β} {Q : α → List Problem → Prop}
    {R : β → List Problem → Prop}
    (hx : ReportsAt checks index extensions ds steps front level s x Q)
    (hf : ∀ a own, Q a own → Reports checks index extensions ds steps front level (f a)
      fun b own' ↦ R b (own ++ own')) :
    ReportsAt checks index extensions ds steps front level s (x >>= f) R := by
  intro hexact hready hdepth
  obtain ⟨own, hexact', hlater, hdepth', hadds, ha⟩ := hx hexact hready hdepth
  obtain ⟨own', hexact'', hlater', hdepth'', hadds', hb⟩ :=
    hf _ own ha _ hexact' (hready.later hlater) hdepth'
  exact ⟨own ++ own', hexact'', hlater.trans hlater', hdepth'', hadds.trans hadds', hb⟩

end ReportsAt

namespace Reports

/-- What is known of the reports of every run may be weakened. -/
theorem imp {x : Resolving α} {Q R : α → List Problem → Prop}
    (h : Reports checks index extensions ds steps front level x Q)
    (hQ : index.Reflects ds → ∀ a own, Q a own → R a own) :
    Reports checks index extensions ds steps front level x R :=
  fun s ↦ (h s).imp fun hexact _ ↦ hQ hexact.reflects

/-- A value reports nothing in any state. -/
theorem pure {a : α} {Q : α → List Problem → Prop} (h : index.Reflects ds → Q a []) :
    Reports checks index extensions ds steps front level (Pure.pure a : Resolving α) Q :=
  fun _ ↦ .pure fun hexact _ ↦ h hexact.reflects

/-- A sequence reports what its parts report, in order. -/
theorem bind {x : Resolving α} {f : α → Resolving β} {Q : α → List Problem → Prop}
    {R : β → List Problem → Prop} (hx : Reports checks index extensions ds steps front level x Q)
    (hf : ∀ a own, Q a own → Reports checks index extensions ds steps front level (f a)
      fun b own' ↦ R b (own ++ own')) :
    Reports checks index extensions ds steps front level (x >>= f) R :=
  fun s ↦ (hx s).bind hf

end Reports

-- A step that finds the stack exhausted and only reports this may leave out any problems.
private theorem reportsAt_of_tooDeep (origin : Origin) {s : State} {rest : StackChecks}
    {x : Resolving α} {a : α} {Q : α → List Problem → Prop} (hmem : true ∈ s.checks)
    (hrest : rest <:+ s.checks)
    (hrun : x.run s =
      (a, { s.withProblem (.tooDeep origin.label) origin.location with checks := rest }))
    (hQ : ¬checks.Ample → ∃ own, Q a own) :
    ReportsAt checks index extensions ds steps front level s x Q := by
  intro hexact _ hdepth
  have hnot : ¬checks.Ample := hexact.not_ample hmem
  obtain ⟨own, ha⟩ := hQ hnot
  rw [hrun]
  refine ⟨own, hexact.of_eq rfl rfl hrest, .of_eq rfl, hdepth, ?_, ha⟩
  exact .of_exhausted hnot [] rfl rfl (List.forall_mem_singleton.mpr rfl)

private theorem reports_within {origin : Origin} {x : Resolving (Option α)}
    {f : Option α → Option β} {Q : Option α → List Problem → Prop}
    {R : Option β → List Problem → Prop} (hlevel : level < TypeExpr.maxDepth)
    (hx : Reports checks index extensions ds steps front (level + 1) x Q)
    (hQ : ∀ a own, Q a own → R (f a) own) (hexhausted : ¬checks.Ample → ∃ own, R none own) :
    Reports checks index extensions ds steps front level
      (do
        if ← openLevel origin then
          let a ← x
          closeLevel
          pure (f a)
        else pure none) R := by
  intro s hexact hready hdepth
  obtain ⟨hwhy, rest, hrest, hrun⟩ | ⟨-, hrun⟩ := run_openLevel_cases origin s
  · refine reportsAt_of_tooDeep origin (hwhy.resolve_left (by omega)) hrest ?_ hexhausted hexact
      hready hdepth
    rw [run_bind, hrun]
    rfl
  · rw [run_bind, hrun]
    obtain ⟨own, hexact', hlater, hdepth', hadds, ha⟩ := hx { s.checked with depth := s.depth + 1 }
      (hexact.of_eq rfl rfl (List.tail_suffix _)) ⟨hready.walking, hready.room⟩
      (congrArg (· + 1) hdepth)
    exact ⟨own, hexact'.of_eq rfl rfl List.suffix_rfl, ⟨hlater.walking, hlater.waiting⟩,
      congrArg (· - 1) hdepth', hadds, hQ _ own ha⟩

/-! ### Types -/

section

variable (checks index extensions ds)

/-- The result is what the type resolves to, and the problems are those with its references. -/
structure TypeReported (ns : Option Name) (origin : Origin) (t : TypeExpr TypeRef)
    (result : Option ResolvedType) (own : List Problem) : Prop where
  own_eq : own = t.leaves.filterMap (index.fault? extensions ns origin)
  decides : Decides checks (Resolves ds extensions ns t) result

/-- The result is what the attributes resolve to, and the problems are those with references in
their types. -/
structure FieldsReported (ns : Option Name) (origin : Origin) (fields : Fields TypeRef)
    (result : Option (Fields Atom)) (own : List Problem) : Prop where
  own_eq : own = fields.leaves.filterMap (index.fault? extensions ns origin)
  decides : Decides checks (ResolvesFields ds extensions ns fields) result

end

section

variable {leaf : TypeRef → Resolving (Option ResolvedType)} {origin : Origin} {ns : Option Name}

mutual

private theorem reports_resolveWith {level : Nat} (t : TypeExpr TypeRef)
    (ht : Fits ds extensions ns level t)
    (hleaf : ∀ level, ∀ r ∈ t.leaves, Fits ds extensions ns level (.leaf r) →
      Reports checks index extensions ds steps front level (leaf r)
        (TypeReported checks index extensions ds ns origin (.leaf r))) :
    Reports checks index extensions ds steps front level (resolveWith leaf origin t)
      (TypeReported checks index extensions ds ns origin t) := by
  match t with
  | .leaf r => exact hleaf level r List.mem_cons_self ht
  | .set element =>
    rw [resolveWith]
    refine reports_within ht.1 (reports_resolveWith element ht.2 hleaf) ?_
      fun hnot ↦ ⟨_, rfl, .of_exhausted hnot⟩
    rintro result own ⟨hown, hdecides⟩
    exact ⟨hown, (hdecides.map TypeExpr.set).congr fun u ↦ resolves_set_iff.symm⟩
  | .record fields notes =>
    rw [resolveWith]
    refine reports_within ht.1 (reports_resolveFieldsWith fields ht.2 hleaf) ?_
      fun hnot ↦ ⟨_, rfl, .of_exhausted hnot⟩
    rintro result own ⟨hown, hdecides⟩
    exact ⟨hown, (hdecides.map (TypeExpr.record · notes)).congr fun u ↦ resolves_record_iff.symm⟩

private theorem reports_resolveFieldsWith {level : Nat} (fields : Fields TypeRef)
    (hfields : FieldsFit ds extensions ns level fields)
    (hleaf : ∀ level, ∀ r ∈ fields.leaves, Fits ds extensions ns level (.leaf r) →
      Reports checks index extensions ds steps front level (leaf r)
        (TypeReported checks index extensions ds ns origin (.leaf r))) :
    Reports checks index extensions ds steps front level (resolveFieldsWith leaf origin fields)
      (FieldsReported checks index extensions ds ns origin fields) := by
  match fields with
  | .nil =>
    refine .pure fun _ ↦ ⟨rfl, .of_iff fun u ↦ ?_⟩
    rw [resolvesFields_nil_iff, Option.some.injEq, eq_comm]
  | .cons key t required notes rest =>
    apply (reports_resolveWith t hfields.1
      fun level r hr ↦ hleaf level r (List.mem_append_left _ hr)).bind
    rintro result own ⟨rfl, hdecides⟩
    apply (reports_resolveFieldsWith rest hfields.2
      fun level r hr ↦ hleaf level r (List.mem_append_right _ hr)).bind
    rintro result' own' ⟨rfl, hdecides'⟩
    have hown : t.leaves.filterMap (index.fault? extensions ns origin) ++
        (rest.leaves.filterMap (index.fault? extensions ns origin) ++ []) =
          (Fields.cons key t required notes rest).leaves.filterMap
            (index.fault? extensions ns origin) := by
      rw [List.append_nil, Fields.leaves, List.filterMap_append]
    split
    · next u u' =>
      refine .pure fun _ ↦ ⟨hown, fun v hv ↦ ?_, fun hample v hv ↦ ?_⟩
      · cases hv
        exact resolvesFields_cons_iff.mpr
          ⟨u, u', hdecides.sound u rfl, hdecides'.sound u' rfl, rfl⟩
      · obtain ⟨w, w', hw, hw', rfl⟩ := resolvesFields_cons_iff.mp hv
        cases hdecides.complete hample w hw
        cases hdecides'.complete hample w' hw'
        rfl
    · next hnone =>
      refine .pure fun _ ↦ ⟨hown, nofun, fun hample v hv ↦ ?_⟩
      obtain ⟨w, w', hw, hw', -⟩ := resolvesFields_cons_iff.mp hv
      exact (hnone w w' (hdecides.complete hample w hw) (hdecides'.complete hample w' hw')).elim

end

end

/-! ### References -/

section

variable {origin : Origin} {ns : Option Name}

/-- The problems with what a look-up leads to: one, or none. -/
def Target.problems (index : Index) (extensions : Extensions) (origin : Origin) (t : Target) :
    List Problem :=
  ((t.cause? index extensions origin.label).map fun cause ↦ ⟨cause, origin.location⟩).toList

end

/-! ### Common types -/

section

variable {origin : Origin} {n : Name}

-- Something right is noted of a declared common type, and no other one was walked.
private theorem Exact.note {s s' : State} (h : Exact checks index extensions ds s)
    {progress : Progress} (hcommon : s'.common = s.common.insert n progress)
    (hn : (s.common.find? n).isSome = true) (hprogress : progress ≠ .waiting)
    (houtcome : ∀ outcome, progress = .settled outcome → IsOutcome checks ds extensions n outcome)
    (hwalked : ∀ m ∈ s'.walked, m = n ∨ m ∈ s.walked)
    (hnoted : checks.Ample → ∀ m, m = n ∨ m ∈ s.walked → m ∈ s'.walked)
    (hnodup : s'.walked.Nodup) (hchecks : s'.checks <:+ s.checks) :
    Exact checks index extensions ds s' where
  reflects := h.reflects
  known m := by
    rw [hcommon, Table.find?_insert, ← h.known m]
    split
    · next hm => simp [hm, hn]
    · rfl
  settled m outcome hm := by
    rw [hcommon, Table.find?_insert] at hm
    split at hm
    · next heq => exact heq ▸ houtcome outcome (Option.some.inj hm)
    · exact h.settled m outcome hm
  walked m hm := by
    rw [hcommon, Table.find?_insert]
    split
    · exact ⟨progress, rfl, hprogress⟩
    · next hne => exact h.walked m ((hwalked m hm).resolve_left hne)
  noted hample m progress' hm hprogress' := by
    rw [hcommon, Table.find?_insert] at hm
    refine hnoted hample m ?_
    split at hm
    · next heq => exact .inl heq
    · exact .inr (h.noted hample m progress' hm hprogress')
  nodup := hnodup
  pending := hchecks.trans h.pending

private theorem Exact.walk {s s' : State} (h : Exact checks index extensions ds s)
    (hn : s.common.find? n = some .waiting) (hcommon : s'.common = s.common.insert n .walking)
    (hwalked : s'.walked = n :: s.walked) (hchecks : s'.checks <:+ s.checks) :
    Exact checks index extensions ds s' := by
  refine h.note hcommon (by rw [hn]; rfl) nofun nofun ?_ ?_ ?_ hchecks
  · exact fun m hm ↦ List.mem_cons.mp (hwalked ▸ hm)
  · exact fun _ m hm ↦ hwalked ▸ List.mem_cons.mpr hm
  · rw [hwalked, List.nodup_cons]
    refine ⟨fun hmem ↦ ?_, h.nodup⟩
    obtain ⟨progress, hprogress, hne⟩ := h.walked n hmem
    rw [hn, Option.some.injEq] at hprogress
    exact hne hprogress.symm

private theorem Exact.settle {s s' : State} (h : Exact checks index extensions ds s)
    (hn : n ∈ s.walked) {outcome : Option (ResolvedType × Nat)}
    (houtcome : IsOutcome checks ds extensions n outcome)
    (hcommon : s'.common = s.common.insert n (.settled outcome)) (hwalked : s'.walked = s.walked)
    (hchecks : s'.checks <:+ s.checks) : Exact checks index extensions ds s' := by
  obtain ⟨progress, hprogress, -⟩ := h.walked n hn
  refine h.note hcommon (by rw [hprogress]; rfl) nofun ?_ ?_ ?_ (hwalked ▸ h.nodup) hchecks
  · rintro _ ⟨⟩
    exact houtcome
  · exact fun m hm ↦ .inr (hwalked ▸ hm)
  · rintro - m (rfl | hm)
    · exact hwalked ▸ hn
    · exact hwalked ▸ hm

end

/-! ### Runs outside of bodies -/

end PolicySchema.Resolve
