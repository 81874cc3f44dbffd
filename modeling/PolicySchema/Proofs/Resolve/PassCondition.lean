import PolicySchema.Proofs.Resolve.Completed
import PolicySchema.Proofs.Resolve.Reading
import PolicySchema.Proofs.Resolve.TypeProblems

/-!
# Which runs pass

Some problems count as bad. A step passes if no bad problem was found once it is done. As long as
what is noted of the common types is what they are read as, and there is enough stack, whether a
step passes depends only on what it resolves: it does if that is read as something, and then it
gives what it is read as (`Passes`). So it makes no difference which common types were walked before
it.
-/

namespace PolicySchema.Resolve

open Resolving

variable {α β : Type}

/-! ### States -/

/-- No bad problem was found. -/
def Clean (bad : Cause → Prop) (s : State) : Prop := ∀ p ∈ s.problems, ¬bad p.cause

/-- What is noted of the common types is what they are read as. The body of `own` is being walked,
and `level` sets and records are open. There is enough stack. -/
structure Reliable (index : Index) (ds : List Declared) (extensions : Extensions)
    (own : Option Name) (level : Nat) (s : State) : Prop where
  depth : s.depth = level
  own : ∀ n, own = some n → s.common.find? n = some .walking
  known : ∀ n, (s.common.find? n).isSome = (index.commonTypes.find? n).isSome
  settled : ∀ n outcome, s.common.find? n = some (.settled outcome) →
    ∃ u, outcome = some (u, u.depth) ∧ ReadsName ds extensions none 0 n u
  roomy : s.checks = []

private theorem Reliable.own_ne {index : Index} {ds : List Declared} {extensions : Extensions}
    {own : Option Name} {level : Nat} {s : State} {n : Name} {progress : Progress}
    (h : Reliable index ds extensions own level s) (hn : s.common.find? n = some progress)
    (hprogress : progress ≠ .walking) : own ≠ some n := by
  intro hown
  rw [h.own n hown] at hn
  exact hprogress (Option.some.inj hn).symm

/-- The common type leads to the one whose body is being walked. -/
def Around (ds : List Declared) (own : Option Name) (m : Name) : Prop :=
  ∃ n, own = some n ∧ Leading ds n m

/-! ### Steps -/

/-- From the state `s`, the step does not pass if there is a bad problem already. Otherwise, if what
is noted there is right and the condition `G` holds, it passes exactly if `P` holds, and then
it gives a result with the property `Q`. -/
structure PassesAt (index : Index) (ds : List Declared) (extensions : Extensions)
    (bad : Cause → Prop) (steps : Nat) (own : Option Name) (level : Nat) (s : State)
    (x : Resolving α) (G P : Prop) (Q : α → Prop) : Prop where
  before : Clean bad (x.run s).2 → Clean bad s
  passes : G → Clean bad s → Reliable index ds extensions own level s →
    Ready steps (Around ds own) s → (Clean bad (x.run s).2 ↔ P) ∧
      (P → Reliable index ds extensions own level (x.run s).2 ∧ Later s (x.run s).2 ∧ Q (x.run s).1)

/-- The step passes exactly if `P` holds, from any state. -/
def Passes (index : Index) (ds : List Declared) (extensions : Extensions) (bad : Cause → Prop)
    (steps : Nat) (own : Option Name) (level : Nat) (x : Resolving α) (G P : Prop)
    (Q : α → Prop) : Prop :=
  ∀ s, PassesAt index ds extensions bad steps own level s x G P Q

/-- The step passes exactly if something has the property, and then it gives this. -/
def Finds (index : Index) (ds : List Declared) (extensions : Extensions) (bad : Cause → Prop)
    (steps : Nat) (own : Option Name) (level : Nat) (x : Resolving (Option α)) (S : α → Prop) :
    Prop :=
  Passes index ds extensions bad steps own level x True (∃ a, S a)
    fun result ↦ ∃ a, result = some a ∧ S a

variable {index : Index} {ds : List Declared} {extensions : Extensions} {bad : Cause → Prop}
  {steps : Nat} {own : Option Name} {level : Nat}

/-! ### Rules -/

section

variable {G H P C : Prop}

namespace PassesAt

variable {s : State}

/-- An equivalent condition may replace the condition, and what it gives may be weakened. -/
theorem imp {x : Resolving α} {Q R : α → Prop}
    (h : PassesAt index ds extensions bad steps own level s x G P Q) (hG : H → G)
    (hP : H → (P ↔ C))
    (hQ : H → P → Later s (x.run s).2 → Q (x.run s).1 → R (x.run s).1) :
    PassesAt index ds extensions bad steps own level s x H C R := by
  refine ⟨h.before, fun hguard hclean hreliable hready ↦ ?_⟩
  obtain ⟨hpasses, hrun⟩ := h.passes (hG hguard) hclean hreliable hready
  refine ⟨hpasses.trans (hP hguard), fun hC ↦ ?_⟩
  have hbefore := (hP hguard).mpr hC
  obtain ⟨hreliable', hlater, ha⟩ := hrun hbefore
  exact ⟨hreliable', hlater, hQ hguard hbefore hlater ha⟩

/-- A stronger assumption keeps the condition. -/
theorem under {x : Resolving α} {Q : α → Prop}
    (h : PassesAt index ds extensions bad steps own level s x G P Q) (hG : H → G) :
    PassesAt index ds extensions bad steps own level s x H P Q :=
  h.imp hG (fun _ ↦ .rfl) fun _ _ _ ↦ id

/-- What is asked of the state may be used. -/
theorem of_reliable {x : Resolving α} {Q : α → Prop}
    (h : PassesAt index ds extensions bad steps own level s x
      (G ∧ Reliable index ds extensions own level s ∧ Ready steps (Around ds own) s) P Q) :
    PassesAt index ds extensions bad steps own level s x G P Q :=
  ⟨h.before, fun hguard hclean hreliable hready ↦
    h.passes ⟨hguard, hreliable, hready⟩ hclean hreliable hready⟩

/-- A value passes exactly under a condition that holds. -/
theorem pure {a : α} {Q : α → Prop} (hP : G → P) (hQ : G → P → Q a) :
    PassesAt index ds extensions bad steps own level s (Pure.pure a : Resolving α) G P Q :=
  ⟨id, fun hguard hclean hreliable _ ↦
    ⟨iff_of_true hclean (hP hguard), fun h ↦ ⟨hreliable, .refl s, hQ hguard h⟩⟩⟩

/-- The second step runs in the state that the first leads to, and need not be considered unless the
first passes. -/
theorem bind_run {x : Resolving α} {f : α → Resolving β} {Q : α → Prop} {R : β → Prop}
    (hx : PassesAt index ds extensions bad steps own level s x G P Q)
    (hf : PassesAt index ds extensions bad steps own level (x.run s).2 (f (x.run s).1)
      (G ∧ P ∧ Q (x.run s).1) C R) :
    PassesAt index ds extensions bad steps own level s (x >>= f) G (P ∧ C) R := by
  refine ⟨fun h ↦ hx.before (hf.before h), fun hguard hclean hreliable hready ↦ ?_⟩
  obtain ⟨hfirst, hrun⟩ := hx.passes hguard hclean hreliable hready
  rw [run_bind]
  by_cases hP : P
  · obtain ⟨hreliable', hlater, ha⟩ := hrun hP
    obtain ⟨hsecond, hrun'⟩ :=
      hf.passes ⟨hguard, hP, ha⟩ (hfirst.mpr hP) hreliable' (hready.later hlater)
    refine ⟨hsecond.trans (and_iff_right hP).symm, fun h ↦ ?_⟩
    obtain ⟨hreliable'', hlater', hb⟩ := hrun' h.2
    exact ⟨hreliable'', hlater.trans hlater', hb⟩
  · refine ⟨iff_of_false (fun h ↦ hP (hfirst.mp (hf.before h))) (fun h ↦ hP h.1), ?_⟩
    exact fun h ↦ absurd h.1 hP

/-- A sequence passes exactly when its first part does and then the second does. -/
theorem bind {x : Resolving α} {f : α → Resolving β} {Q : α → Prop} {R : β → Prop}
    (hx : PassesAt index ds extensions bad steps own level s x G P Q)
    (hf : ∀ a, Passes index ds extensions bad steps own level (f a) (G ∧ P ∧ Q a) C R) :
    PassesAt index ds extensions bad steps own level s (x >>= f) G (P ∧ C) R :=
  hx.bind_run (hf _ _)

end PassesAt

namespace Passes

/-- An equivalent condition may replace the condition in every state. -/
theorem imp {x : Resolving α} {Q R : α → Prop}
    (h : Passes index ds extensions bad steps own level x G P Q) (hG : H → G)
    (hP : H → (P ↔ C)) (hQ : H → P → ∀ a, Q a → R a) :
    Passes index ds extensions bad steps own level x H C R :=
  fun s ↦ (h s).imp hG hP fun hguard hbefore _ ↦ hQ hguard hbefore _

/-- A stronger assumption keeps the condition in every state. -/
theorem under {x : Resolving α} {Q : α → Prop}
    (h : Passes index ds extensions bad steps own level x G P Q) (hG : H → G) :
    Passes index ds extensions bad steps own level x H P Q :=
  fun s ↦ (h s).under hG

/-- A value passes in every state exactly under a condition that holds. -/
theorem pure {a : α} {Q : α → Prop} (hP : G → P) (hQ : G → P → Q a) :
    Passes index ds extensions bad steps own level (Pure.pure a : Resolving α) G P Q :=
  fun _ ↦ .pure hP hQ

/-- A sequence passes in every state exactly when both its parts do. -/
theorem bind {x : Resolving α} {f : α → Resolving β} {Q : α → Prop} {R : β → Prop}
    (hx : Passes index ds extensions bad steps own level x G P Q)
    (hf : ∀ a, Passes index ds extensions bad steps own level (f a) (G ∧ P ∧ Q a) C R) :
    Passes index ds extensions bad steps own level (x >>= f) G (P ∧ C) R :=
  fun s ↦ (hx s).bind hf

/-- A step that reads the state goes on from this state. -/
theorem get_bind {f : State → Resolving β} {R : β → Prop}
    (h : ∀ s, PassesAt index ds extensions bad steps own level s (f s) G P R) :
    Passes index ds extensions bad steps own level (get >>= f) G P R :=
  fun s ↦ ⟨(h s).before, (h s).passes⟩

end Passes

private theorem clean_of_withProblem {cause : Cause} {location : Option Location} {s : State}
    (h : Clean bad (s.withProblem cause location)) : Clean bad s ∧ ¬bad cause := by
  obtain ⟨hbefore, hcause⟩ := List.forall_mem_append.mp h
  exact ⟨hbefore, hcause _ List.mem_cons_self⟩

/-- A step that reports another problem passes. -/
theorem passes_report {cause : Cause} {location : Option Location} (h : ¬bad cause) :
    Passes index ds extensions bad steps own level (report cause location) G True
      fun _ ↦ True := by
  refine fun s ↦ ⟨fun hclean ↦ (clean_of_withProblem hclean).1, fun _ hclean hreliable _ ↦ ⟨?_, ?_⟩⟩
  · exact iff_of_true
      (List.forall_mem_append.mpr ⟨hclean, List.forall_mem_singleton.mpr h⟩) trivial
  · intro _
    exact ⟨⟨hreliable.depth, hreliable.own, hreliable.known, hreliable.settled, hreliable.roomy⟩,
      .of_eq rfl, trivial⟩

private theorem passes_reject {cause : Cause} {origin : Origin} {Q : Option α → Prop}
    (h : G → bad cause) (hP : G → ¬P) :
    Passes index ds extensions bad steps own level (reject cause origin) G P Q := by
  refine fun s ↦ ⟨fun hclean ↦ (clean_of_withProblem hclean).1, fun hguard _ _ _ ↦ ⟨?_, ?_⟩⟩
  · exact iff_of_false (fun hclean ↦ (clean_of_withProblem hclean).2 (h hguard)) (hP hguard)
  · exact fun hpasses ↦ absurd hpasses (hP hguard)

end

/-! ### Sets and records -/

section

variable {origin : Origin}

private theorem passes_inside (hdeep : bad (.tooDeep origin.label)) {x : Resolving (Option α)}
    {make : α → β} {S : α → Prop}
    (hx : Finds index ds extensions bad steps own (level + 1) x S) :
    Passes index ds extensions bad steps own level
      (do
        if ← openLevel origin then
          let a ← x
          closeLevel
          pure (a.map make)
        else pure none)
      True (level < TypeExpr.maxDepth ∧ ∃ a, S a)
      fun result ↦ ∃ a, result = some (make a) ∧ S a := by
  intro s
  constructor
  · intro hclean
    obtain ⟨-, checks, -, hopen⟩ | ⟨-, hopen⟩ := run_openLevel_cases origin s <;>
      rw [run_bind, hopen] at hclean
    · exact (clean_of_withProblem hclean).1
    · exact (hx { s.checked with depth := s.depth + 1 }).before hclean
  · intro _ hclean hreliable hready
    by_cases hroom : level < TypeExpr.maxDepth
    · rw [run_bind, run_openLevel_of_lt hreliable.roomy (by rwa [hreliable.depth])]
      obtain ⟨hiff, hrun⟩ := (hx { s with depth := s.depth + 1 }).passes trivial hclean
        ⟨congrArg (· + 1) hreliable.depth, hreliable.own, hreliable.known, hreliable.settled,
          hreliable.roomy⟩
        ⟨hready.walking, hready.room⟩
      refine ⟨hiff.trans (and_iff_right hroom).symm, fun h ↦ ?_⟩
      obtain ⟨hinside, hlater, a, ha, hS⟩ := hrun h.2
      refine ⟨⟨?_, hinside.own, hinside.known, hinside.settled, hinside.roomy⟩,
        ⟨hlater.walking, hlater.waiting⟩, a, congrArg (Option.map make) ha, hS⟩
      exact congrArg (· - 1) hinside.depth
    · rw [run_bind, run_openLevel_of_ge (by rw [hreliable.depth]; omega)]
      refine ⟨iff_of_false (fun hclean ↦ (clean_of_withProblem hclean).2 hdeep) ?_, ?_⟩ <;>
        exact fun h ↦ absurd h.1 hroom

variable {leaf : TypeRef → Resolving (Option ResolvedType)} {ns : Option Name}

mutual

private theorem finds_resolveWith (hdeep : bad (.tooDeep origin.label)) (level : Nat)
    (t : TypeExpr TypeRef)
    (hleaf : ∀ level, ∀ r ∈ t.leaves, Finds index ds extensions bad steps own level (leaf r)
      (Reads ds extensions own ns level (.leaf r))) :
    Finds index ds extensions bad steps own level (resolveWith leaf origin t)
      (Reads ds extensions own ns level t) := by
  match t with
  | .leaf r => exact hleaf level r List.mem_cons_self
  | .set element =>
    apply (passes_inside hdeep (finds_resolveWith hdeep (level + 1) element hleaf)).imp id
    · intro _
      simp [reads_set_iff]
    · rintro - ⟨hroom, -⟩ _ ⟨u, rfl, hu⟩
      exact ⟨_, rfl, .set hroom hu⟩
  | .record fields notes =>
    apply (passes_inside hdeep (finds_resolveFieldsWith hdeep (level + 1) fields hleaf)).imp id
    · intro _
      simp [reads_record_iff]
    · rintro - ⟨hroom, -⟩ _ ⟨u, rfl, hu⟩
      exact ⟨_, rfl, .record hroom hu⟩

private theorem finds_resolveFieldsWith (hdeep : bad (.tooDeep origin.label)) (level : Nat)
    (fields : Fields TypeRef)
    (hleaf : ∀ level, ∀ r ∈ fields.leaves, Finds index ds extensions bad steps own level (leaf r)
      (Reads ds extensions own ns level (.leaf r))) :
    Finds index ds extensions bad steps own level (resolveFieldsWith leaf origin fields)
      (ReadsFields ds extensions own ns level fields) := by
  match fields with
  | .nil => exact .pure (fun _ ↦ ⟨_, .nil⟩) fun _ _ ↦ ⟨_, rfl, .nil⟩
  | .cons key t required notes rest =>
    have hfirst := finds_resolveWith hdeep level t
      fun level r hr ↦ hleaf level r (List.mem_append_left _ hr)
    have hothers := finds_resolveFieldsWith hdeep level rest
      fun level r hr ↦ hleaf level r (List.mem_append_right _ hr)
    refine (hfirst.bind (R := fun result ↦ ∃ u, result = some u ∧
      ReadsFields ds extensions own ns level (.cons key t required notes rest) u) fun result ↦
        ((hothers.under fun _ ↦ trivial).bind (C := True)
          fun result' ↦ ?_)).imp id (fun _ ↦ ?_) fun _ _ _ ↦ id
    · split
      · apply Passes.pure fun _ ↦ trivial
        rintro ⟨⟨-, -, _, ⟨⟩, hu⟩, -, _, ⟨⟩, hu'⟩ -
        exact ⟨_, rfl, .cons hu hu'⟩
      · next hnone =>
        apply Passes.pure fun _ ↦ trivial
        rintro ⟨⟨-, -, u, rfl, -⟩, -, u', rfl, -⟩ -
        exact absurd rfl (hnone u u' rfl)
    · simp [readsFields_cons_iff]

end

end

/-! ### References -/

/-- What counts as bad decides whether a type can be read: that it is too deep does, that a
reference in it is at fault does, and that a common type which refers to itself has not the name of
an entity type. None that leads to another one and back has. -/
structure Sharp (ds : List Declared) (extensions : Extensions) (bad : Cause → Prop) : Prop where
  deep : ∀ label, bad (.tooDeep label)
  reference : ∀ d ∈ ds, ∀ r ∈ d.references, ∀ label cause,
    FaultyReference ds extensions d.ns label r cause → bad cause
  cyclic : ∀ n, IsCyclic ds n → ∀ label, bad (.unknownEntityType n label)
  isMutual : ∀ n, IsMutual ds n → ¬HasEntityType ds n

section

variable {ns : Option Name} {r : TypeRef} {origin : Origin} {label : String} {inner : Inliner}

private theorem FaultyReference.not_reads (hindex : index.Reflects ds) {cause : Cause}
    (h : FaultyReference ds extensions ns label r cause) (u : ResolvedType) :
    ¬Reads ds extensions own ns level (.leaf r) u := by
  have hatom {a : Atom} (hr : Denotes ds ns r (.atom a)) (ha : ¬Found ds extensions a) :
      ¬Reads ds extensions own ns level (.leaf r) u :=
    fun hu ↦ ha ((reads_leaf_of_atom hindex hr).mp hu).1
  cases h with
  | unknownEntityType hr hn => exact hatom hr hn
  | unknownCommonType hr =>
    rintro (⟨hr', -⟩ | ⟨hr', -⟩)
    · exact hr _ hr'
    · exact hr _ hr'
  | unknownExtension hr hid => exact hatom hr fun h ↦ by simp [h.1] at hid
  | disabledExtension hr _ hid => exact hatom hr fun h ↦ by simp [h.2] at hid

private theorem found_of_not_faulty {a : Atom} (label : String) (hr : Denotes ds ns r (.atom a))
    (h : ∀ cause, ¬FaultyReference ds extensions ns label r cause) : Found ds extensions a := by
  cases a with
  | primitive p => trivial
  | entity n =>
    by_contra hn
    exact h _ (.unknownEntityType hr hn)
  | extension id =>
    by_contra hid
    cases hknown : isKnownExtension id.text with
    | false => exact h _ (.unknownExtension hr hknown)
    | true =>
      refine h _ (.disabledExtension hr hknown ?_)
      simpa [Found, hknown] using hid

/-- A reference is not at fault if what it denotes is there. -/
theorem AllFound.not_faulty (h : AllFound ds extensions) (hindex : index.Reflects ds) {d : Declared}
    (hd : d ∈ ds) (hr : r ∈ d.references) {cause : Cause} :
    ¬FaultyReference ds extensions d.ns label r cause := by
  obtain ⟨x, hx, hfound⟩ := h d hd r hr
  have hatom {a : Atom} (ha : Denotes ds d.ns r (.atom a)) : Found ds extensions a :=
    hfound a (hindex.denotes_unique hx ha)
  rintro (⟨hr', hn⟩ | hr' | ⟨hr', hid⟩ | ⟨hr', -, hid⟩)
  · exact hn (hatom hr')
  · exact hr' x hx
  · simp [(hatom hr').1] at hid
  · simp [(hatom hr').2] at hid

private theorem exists_denotes_of_cause? (hindex : index.Reflects ds)
    (h : (index.target ns r).cause? index extensions label = none) :
    ∃ x, (index.target ns r).referent? = some x ∧ Denotes ds ns r x ∧
      ∀ a, x = .atom a → Found ds extensions a := by
  cases hr : (index.target ns r).referent? with
  | none =>
    cases htarget : index.target ns r <;> rw [htarget] at hr h <;> cases hr
    cases h
  | some x =>
    have hx : Denotes ds ns r x := hindex.denotes_iff.mpr hr
    refine ⟨x, rfl, hx, ?_⟩
    rintro a rfl
    refine found_of_not_faulty label hx fun cause hfaulty ↦ ?_
    rw [hindex.faultyReference_iff, h] at hfaulty
    cases hfaulty

/-- That everything denoted is there can be looked up. -/
theorem Index.Reflects.allFound (hindex : index.Reflects ds)
    (h : ∀ d ∈ ds, ∀ r ∈ d.references, (index.target d.ns r).cause? index extensions "" = none) :
    AllFound ds extensions := by
  intro d hd r hr
  obtain ⟨x, -, hx⟩ := exists_denotes_of_cause? hindex (h d hd r hr)
  exact ⟨x, hx⟩

private theorem resolveRef_of_cause {cause : Cause}
    (h : (index.target ns r).cause? index extensions origin.label = some cause) :
    resolveRef index extensions inner ns origin r = reject cause origin := by
  unfold resolveRef
  cases htarget : index.target ns r with
  | atom a => simp [htarget, Target.cause?] at h
  | common n => simp [htarget, Target.cause?] at h
  | entity n =>
    rw [htarget, Target.cause?] at h
    split at h <;> cases h
    next hn => exact entityAtom_of_not_known hn
  | extension id =>
    rw [htarget, Target.cause?] at h
    dsimp only
    unfold extensionAtom
    split at h
    · next hknown =>
      cases h
      rw [if_pos hknown]
    · next hknown =>
      split at h <;> cases h
      next hdisabled => rw [if_neg hknown, if_pos hdisabled]
  | missingCommon n =>
    rw [htarget, Target.cause?, Option.some.injEq] at h
    subst h
    rfl

private theorem resolveRef_of_atom {a : Atom} (hr : (index.target ns r).referent? = some (.atom a))
    (h : (index.target ns r).cause? index extensions origin.label = none) :
    resolveRef index extensions inner ns origin r = pure (some (.leaf a)) := by
  unfold resolveRef
  cases htarget : index.target ns r <;> rw [htarget] at h hr <;> cases hr
  · rfl
  · rw [Target.cause?] at h
    split at h <;> cases h
    next hn => exact entityAtom_of_known hn
  · rw [Target.cause?] at h
    dsimp only
    unfold extensionAtom
    split at h
    · cases h
    · next hknown =>
      split at h
      · cases h
      · next henabled => rw [if_neg hknown, if_neg henabled]

-- A reference passes if it is read as something, provided that this is so for the common type that
-- it denotes, if any.
private theorem finds_resolveRef (hindex : index.Reflects ds)
    (hbad : ∀ cause, FaultyReference ds extensions ns origin.label r cause → bad cause)
    (hinner : ∀ n, Denotes ds ns r (.common n) →
      Finds index ds extensions bad steps own level (inner origin n)
        (ReadsName ds extensions own level n)) :
    Finds index ds extensions bad steps own level (resolveRef index extensions inner ns origin r)
      (Reads ds extensions own ns level (.leaf r)) := by
  cases hcause : (index.target ns r).cause? index extensions origin.label with
  | some cause =>
    have hfaulty := hindex.faultyReference_iff.mpr hcause
    rw [resolveRef_of_cause hcause]
    apply passes_reject fun _ ↦ hbad cause hfaulty
    rintro - ⟨u, hu⟩
    exact hfaulty.not_reads hindex u hu
  | none =>
    obtain ⟨x, hr, hx, hfound⟩ := exists_denotes_of_cause? hindex hcause
    cases x with
    | atom a =>
      have hread : Reads ds extensions own ns level (.leaf r) (.leaf a) := .atom hx (hfound a rfl)
      rw [resolveRef_of_atom hr hcause]
      exact .pure (fun _ ↦ ⟨_, hread⟩) fun _ _ ↦ ⟨_, rfl, hread⟩
    | common n =>
      have hresolve : resolveRef index extensions inner ns origin r = inner origin n := by
        rw [resolveRef, Target.eq_common_of_referent? hr]
      rw [hresolve]
      apply (hinner n hx).imp id
      · intro _
        simp only [reads_leaf_of_common hindex hx]
      · rintro - - _ ⟨u, rfl, hu⟩
        exact ⟨u, rfl, .common hx hu⟩

end

/-! ### Common types -/

section

variable {origin : Origin} {n : Name}

private theorem readsName_iff (hown : own ≠ some n) {u : ResolvedType} :
    ReadsName ds extensions own level n u ↔
      ReadsName ds extensions none 0 n u ∧ level + u.depth ≤ TypeExpr.maxDepth := by
  constructor
  · rintro (_ | ⟨-, hd, hu, hfits⟩)
    · exact absurd rfl hown
    · exact ⟨.body nofun hd hu (by omega), hfits⟩
  · rintro ⟨_ | ⟨-, hd, hu, -⟩, hfits⟩
    exact .body hown hd hu hfits

-- What a common type is read as, if it is noted, is put in place of a reference outside of its own
-- body where it fits.
private theorem passes_placeInside (hindex : index.Reflects ds)
    (hdeep : bad (.tooDeep origin.label)) (outcome : Option (ResolvedType × Nat)) :
    Passes index ds extensions bad steps own level (placeInside origin outcome)
      (own ≠ some n ∧ ∃ u, outcome = some (u, u.depth) ∧ ReadsName ds extensions none 0 n u)
      (∃ u, ReadsName ds extensions own level n u)
      fun result ↦ ∃ u, result = some u ∧ ReadsName ds extensions own level n u := by
  intro s
  rcases outcome with _ | ⟨t, depth⟩
  · exact .pure (fun ⟨_, _, h, _⟩ ↦ nomatch h) fun ⟨_, _, h, _⟩ ↦ nomatch h
  constructor
  · intro hclean
    obtain ⟨-, checks, -, hrun⟩ | ⟨-, hrun⟩ := run_placeInside_cases origin t depth s <;>
      rw [hrun] at hclean
    · exact (clean_of_withProblem hclean).1
    · exact hclean
  · rintro ⟨hown, u, houtcome, hu⟩ hclean hreliable -
    obtain ⟨rfl, rfl⟩ := Prod.mk.inj (Option.some.inj houtcome)
    by_cases hfits : s.depth + t.depth ≤ TypeExpr.maxDepth
    · have hread : ReadsName ds extensions own level n t :=
        (readsName_iff hown).mpr ⟨hu, hreliable.depth ▸ hfits⟩
      rw [run_placeInside_of_le hreliable.roomy hfits]
      exact ⟨iff_of_true hclean ⟨t, hread⟩, fun _ ↦ ⟨hreliable, .refl s, t, rfl, hread⟩⟩
    · have hunread : ¬∃ v, ReadsName ds extensions own level n v := by
        rintro ⟨v, hv⟩
        obtain ⟨hv, hroom⟩ := (readsName_iff hown).mp hv
        obtain rfl := hindex.readsName_unique hu hv
        exact hfits (hreliable.depth ▸ hroom)
      rw [run_placeInside_of_lt (Nat.not_le.mp hfits)]
      exact ⟨iff_of_false (fun hclean ↦ (clean_of_withProblem hclean).2 hdeep) hunread,
        fun h ↦ absurd h hunread⟩

private theorem Reliable.walk {s s' : State} (h : Reliable index ds extensions own level s)
    (hn : s.common.find? n = some .waiting) (hcommon : s'.common = s.common.insert n .walking)
    (hdepth : s'.depth = 0) (hchecks : s'.checks = s.checks.tail) :
    Reliable index ds extensions (some n) 0 s' where
  depth := hdepth
  own m hm := by
    obtain rfl := Option.some.inj hm
    rw [hcommon, Table.find?_insert, if_pos rfl]
  known m := by
    rw [hcommon, Table.find?_insert, ← h.known m]
    split
    · next hm => simp [hm, hn]
    · rfl
  settled m outcome hm := by
    rw [hcommon, Table.find?_insert] at hm
    split at hm
    · cases hm
    · exact h.settled m outcome hm
  roomy := by rw [hchecks, h.roomy, List.tail_nil]

private theorem Reliable.settle {s s₁ s₂ s' : State} (h : Reliable index ds extensions own level s)
    (hn : s.common.find? n = some .waiting) (h₂ : Reliable index ds extensions (some n) 0 s₂)
    (hlater : Later s₁ s₂) (hs₁ : s₁.common = s.common.insert n .walking)
    {u : ResolvedType} (hu : ReadsName ds extensions none 0 n u)
    (hs' : s'.common = s₂.common.insert n (.settled (some (u, u.depth))))
    (hdepth : s'.depth = s.depth) (hchecks : s'.checks = s₂.checks) :
    Reliable index ds extensions own level s' where
  depth := hdepth.trans h.depth
  own m hm := ((hlater.settle hn hs₁ hs').walking m).mpr (h.own m hm)
  known m := by
    rw [hs', Table.find?_insert, ← h₂.known m]
    split
    · next hm => simp [hm, h₂.own n rfl]
    · rfl
  settled m outcome hm := by
    rw [hs', Table.find?_insert] at hm
    split at hm
    · next heq =>
      cases hm
      exact ⟨u, rfl, heq ▸ hu⟩
    · exact h₂.settled m outcome hm
  roomy := hchecks.trans h₂.roomy

private theorem passesAt_walkBody {inner : Inliner} {d : Placed (TypeExpr TypeRef)} {s : State}
    (hindex : index.Reflects ds) (hs : s.common.find? n = some .waiting)
    (hd : index.commonTypes.find? n = some d) (hfront : ∀ o, own = some o → RefersTo ds o n)
    (hdeep : ∀ label, bad (.tooDeep label))
    (hinner : ∀ level, ∀ r ∈ d.declaration.body.leaves,
      Finds index ds extensions bad steps (some n) level
        (resolveRef index extensions inner d.ns (commonOrigin n d.declaration.location) r)
        (Reads ds extensions (some n) d.ns level (.leaf r))) :
    PassesAt index ds extensions bad (steps + 1) own level s (walkBody index extensions inner n d)
      True (∃ u, ReadsName ds extensions none 0 n u)
      fun outcome ↦ ∃ u, outcome = some (u, u.depth) ∧ ReadsName ds extensions none 0 n u := by
  have hd' : .commonType n d ∈ ds := (hindex.commonType n d).mp hd
  have hbody : PassesAt index ds extensions bad steps (some n) 0 (s.opened n)
      (resolveBody index extensions inner n d) True _ _ :=
    finds_resolveWith (hdeep _) 0 d.declaration.body hinner _
  constructor
  · intro hclean
    obtain ⟨-, hrun⟩ | hrun := run_walkBody_cases index extensions inner n d s <;>
      rw [hrun] at hclean
    · exact (clean_of_withProblem hclean).1
    · exact hbody.before hclean
  · intro _ hclean hreliable hready
    rw [run_walkBody_of_nil hreliable.roomy]
    have hready' : Ready steps (Around ds (some n)) (s.opened n) := by
      refine hready.walk hs rfl ?_ ⟨n, rfl, .refl⟩
      rintro m ⟨o, ho, hm⟩
      exact ⟨n, rfl, hm.tail (hfront o ho)⟩
    obtain ⟨hiff, hwalk⟩ :=
      hbody.passes trivial hclean (hreliable.walk hs rfl rfl rfl) hready'
    simp only [← readsName_zero_iff hindex hd'] at hiff hwalk
    refine ⟨hiff, fun h ↦ ?_⟩
    obtain ⟨hwalked, hlater, u, hu, hread⟩ := hwalk h
    have houtcome : withDepth (some u) = some (u, u.depth) := by
      rw [withDepth, Option.map_some, u.nestingDepth_eq_depth]
    dsimp only
    rw [hu, houtcome]
    exact ⟨hreliable.settle hs hwalked hlater rfl hread rfl rfl rfl, hlater.settle hs rfl rfl, u,
      rfl, hread⟩

-- A reference to a common type whose body is being walked passes if it is in this body, and there
-- is an entity type of the name.
private theorem passes_entityAtom (hindex : index.Reflects ds) (hsharp : Sharp ds extensions bad)
    (hfront : ∀ o, own = some o → RefersTo ds o n) :
    Passes index ds extensions bad steps own level (entityAtom index origin n) (Around ds own n)
      (∃ u, ReadsName ds extensions own level n u)
      fun result ↦ ∃ u, result = some u ∧ ReadsName ds extensions own level n u := by
  by_cases hn : index.known.contains n = true
  · have hentity := (hindex.known n).mp hn
    have hread : Around ds own n → ReadsName ds extensions own level n (.leaf (.entity n)) := by
      rintro ⟨o, rfl, ho⟩
      obtain rfl | hno := Relation.reflTransGen_iff_eq_or_transGen.mp ho
      · exact .own hentity
      · by_cases hne : o = n
        · exact hne ▸ .own (hne ▸ hentity)
        · exact absurd hentity (hsharp.isMutual n ⟨o, hne, hno, .single (hfront o rfl)⟩)
    rw [entityAtom_of_known hn]
    exact .pure (fun h ↦ ⟨_, hread h⟩) fun h _ ↦ ⟨_, rfl, hread h⟩
  · rw [entityAtom_of_not_known hn]
    refine passes_reject ?_ ?_
    · rintro ⟨o, rfl, ho⟩
      exact hsharp.cyclic n (.tail' ho (hfront o rfl)) _
    · rintro ⟨o, rfl, ho⟩ ⟨u, hu⟩
      cases hu with
      | own hentity => exact hn ((hindex.known _).mpr hentity)
      | body hown hd hu hfits =>
        obtain rfl | hno := Relation.reflTransGen_iff_eq_or_transGen.mp ho
        · exact hown rfl
        · have hread : ReadsName ds extensions (some o) level n u := .body hown hd hu hfits
          refine hread.not_isMutual hindex hown ⟨o, ?_, hno, .single (hfront o rfl)⟩
          rintro rfl
          exact hown rfl

-- A common type that is declared passes if it is read as something, provided that walking its body
-- does.
private theorem finds_inlineUpTo_of_walkBody (hindex : index.Reflects ds)
    (hsharp : Sharp ds extensions bad) (hn : HasCommonType ds n)
    (hfront : ∀ o, own = some o → RefersTo ds o n)
    (hwalk : ∀ s d rest, steps = rest + 1 → s.common.find? n = some .waiting →
      index.commonTypes.find? n = some d → PassesAt index ds extensions bad steps own level s
        (walkBody index extensions (inlineUpTo index extensions rest) n d) True
        (∃ u, ReadsName ds extensions none 0 n u)
        fun outcome ↦ ∃ u, outcome = some (u, u.depth) ∧ ReadsName ds extensions none 0 n u) :
    Finds index ds extensions bad steps own level (inlineUpTo index extensions steps origin n)
      (ReadsName ds extensions own level n) := by
  obtain ⟨d, hd⟩ := hn
  rw [← hindex.commonType] at hd
  unfold inlineUpTo
  apply Passes.get_bind
  intro s
  apply PassesAt.of_reliable
  split
  · next hs =>
    -- Something is known of every declared common type.
    have hknown : ¬Reliable index ds extensions own level s := by
      intro hreliable
      have hknown := hreliable.known n
      rw [hs, hd] at hknown
      cases hknown
    exact .pure (fun h ↦ absurd h.2.1 hknown) fun h ↦ absurd h.2.1 hknown
  · next hs =>
    exact (passes_entityAtom hindex hsharp hfront s).under fun h ↦ h.2.2.walking n hs
  · next outcome hs =>
    apply (passes_placeInside hindex (hsharp.deep _) outcome s).under
    rintro ⟨-, hreliable, -⟩
    exact ⟨hreliable.own_ne hs (by simp), hreliable.settled n outcome hs⟩
  · next hs =>
    have hroom (h : Ready steps (Around ds own) s) := h.exists_step hs
    split
    · next rest d' hd' =>
      refine (((hwalk s d' rest rfl hs hd').under fun _ ↦ trivial).bind fun outcome ↦
        (passes_placeInside hindex (hsharp.deep _) outcome).under ?_).imp id ?_ fun _ _ _ ↦ id
      · rintro ⟨⟨-, hreliable, -⟩, -, houtcome⟩
        exact ⟨hreliable.own_ne hs (by simp), houtcome⟩
      · rintro ⟨-, hreliable, -⟩
        refine and_iff_right_of_imp ?_
        rintro ⟨u, hu⟩
        exact ⟨u, ((readsName_iff (hreliable.own_ne hs (by simp))).mp hu).1⟩
    · next hnone =>
      have hfull : ¬∃ rest, _ = rest + 1 :=
        not_exists.mpr fun rest hrest ↦ hnone rest d hrest hd
      exact .pure (fun h ↦ absurd (hroom h.2.2) hfull) fun h ↦ absurd (hroom h.2.2) hfull

-- A common type that is declared passes if it is read as something. The induction is on the number
-- of bodies that may still be walked inside one another.
private theorem finds_inlineUpTo (hindex : index.Reflects ds) (hsharp : Sharp ds extensions bad)
    (hn : HasCommonType ds n) (hfront : ∀ o, own = some o → RefersTo ds o n) :
    Finds index ds extensions bad steps own level (inlineUpTo index extensions steps origin n)
      (ReadsName ds extensions own level n) := by
  induction steps generalizing own level origin n with
  | zero => exact finds_inlineUpTo_of_walkBody hindex hsharp hn hfront nofun
  | succ steps ih =>
    apply finds_inlineUpTo_of_walkBody hindex hsharp hn hfront
    rintro s d rest ⟨⟩ hs hd
    have hd' : .commonType n d ∈ ds := (hindex.commonType n d).mp hd
    apply passesAt_walkBody hindex hs hd hfront hsharp.deep
    intro level r hr
    apply finds_resolveRef hindex
    · intro cause hfaulty
      exact hsharp.reference _ hd' r (List.mem_flatMap.mpr ⟨_, List.mem_cons_self, hr⟩) _ _ hfaulty
    · intro m hm
      apply ih hm.hasCommonType
      rintro _ ⟨⟩
      exact ⟨d, r, hd', hr, hm⟩

end

/-! ### Runs outside of bodies -/

/-- A step that is run while no body is being walked, with as many steps as there are common types
and no set or record open. -/
def Clears (index : Index) (ds : List Declared) (extensions : Extensions) (bad : Cause → Prop)
    (x : Resolving α) (P : Prop) (Q : α → Prop) : Prop :=
  Passes index ds extensions bad index.commonTypes.size none 0 x True P Q

/-- In a state in which no body has been walked, nothing is noted. -/
theorem reliable_start (problems : List Problem) :
    Reliable index ds extensions none 0 (.start [] index problems) where
  depth := rfl
  own _ := nofun
  known n := by simp [State.start, Table.find?_map]
  settled _ _ h := nomatch State.eq_waiting_of_start h
  roomy := rfl

/-- In such a state, each body can be walked once. -/
theorem ready_start_around (problems : List Problem) :
    Ready index.commonTypes.size (Around ds none) (.start [] index problems) where
  walking n h := ((ready_start [] problems).walking n h).elim
  room := (ready_start [] problems).room

/-- A type that is written in a declaration passes if it is read as something. -/
theorem clears_resolveType (hindex : index.Reflects ds) (hsharp : Sharp ds extensions bad)
    {d : Declared} (hd : d ∈ ds) {t : TypeExpr TypeRef} (ht : t ∈ d.types) {origin : Origin} :
    Clears index ds extensions bad (resolveType index extensions d.ns origin t)
      (∃ u, Reads ds extensions none d.ns 0 t u)
      fun result ↦ ∃ u, result = some u ∧ Reads ds extensions none d.ns 0 t u := by
  apply finds_resolveWith (hsharp.deep _)
  intro level r hr
  apply finds_resolveRef hindex
  · intro cause hfaulty
    exact hsharp.reference d hd r (List.mem_flatMap.mpr ⟨t, ht, hr⟩) _ _ hfaulty
  · intro n hn
    exact finds_inlineUpTo hindex hsharp hn.hasCommonType nofun

/-- Walking declared common types passes if each of them is read as something, and leaves none of
their bodies. -/
theorem clearsAt_resolveCommonTypes (hindex : index.Reflects ds) (hsharp : Sharp ds extensions bad)
    (names : List Name) (hnames : ∀ n ∈ names, HasCommonType ds n) (s : State) :
    PassesAt index ds extensions bad index.commonTypes.size none 0 s
      (resolveCommonTypes index extensions names) True
      (∀ n ∈ names, ∃ u, ReadsName ds extensions none 0 n u) fun _ ↦ ∀ n ∈ names,
        ((resolveCommonTypes index extensions names).run s).2.common.find? n ≠ some .waiting := by
  induction names generalizing s with
  | nil => exact .pure (fun _ ↦ nofun) fun _ _ ↦ nofun
  | cons n rest ih =>
    obtain ⟨hn, hrest⟩ := List.forall_mem_cons.mp hnames
    have hfirst : Clears index ds extensions bad (inline index extensions (commonOrigin n none) n)
        _ _ := finds_inlineUpTo hindex hsharp hn nofun
    obtain ⟨d, hd⟩ := hn
    have hleft : ((inline index extensions (commonOrigin n none) n).run s).2.common.find? n ≠
      some .waiting := not_waiting_inline _ ((hindex.commonType n d).mpr hd) s
    refine ((hfirst s).bind_run (R := fun _ ↦ ∀ m ∈ n :: rest, ((resolveCommonTypes index extensions
      (n :: rest)).run s).2.common.find? m ≠ some .waiting) ((ih hrest _).imp (fun _ ↦ trivial)
        (fun _ ↦ .rfl) fun _ _ hlater hothers ↦ ?_)).imp id (fun _ ↦ ?_) fun _ _ _ ↦ id
    · exact List.forall_mem_cons.mpr ⟨fun hn ↦ hleft (hlater.waiting n hn), hothers⟩
    · simp only [List.forall_mem_cons]

end PolicySchema.Resolve
