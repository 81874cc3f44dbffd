import PolicySchema.Proofs.Resolve.Congruence

/-!
# Runs with enough stack

What the checks of the stack find makes a difference only where one finds it exhausted, and this is
reported as types that are too deep. So a run with any checks does what it does with enough stack,
unless it ends with such a problem (`resolveAllUnder_cases`).
-/

namespace PolicySchema

/-- A check finds the stack exhausted, and it is reported that something is too deep. -/
def StackChecks.RunsOut (checks : StackChecks)
    (found : Except (List Resolve.Problem) ResolvedSchema) : Prop :=
  true ∈ checks ∧ ∃ p ∈ Resolve.reported found, p.cause.fault = .tooDeep

/-- A resolved schema has no problems to report. -/
theorem StackChecks.not_runsOut_ok {checks : StackChecks} {r : ResolvedSchema} :
    ¬checks.RunsOut (.ok r) := by
  rintro ⟨-, p, hp, -⟩
  cases hp

namespace Resolve

open Resolving

/-- The same state with enough stack. -/
def State.roomy (s : State) : State := { s with checks := [] }

/-- No problem was lost, and no checks came up other than those that were to come. If a chain was
newly found too long then one of these finds the stack exhausted. -/
structure State.Advances (s s' : State) : Prop where
  problems : s.problems ⊆ s'.problems
  checks : s'.checks <:+ s.checks
  chain : ∀ p ∈ s'.problems, p ∈ s.problems ∨ p.cause.chain? = none ∨ true ∈ s.checks

namespace State.Advances

variable {s s' s'' : State}

/-- A step that reports nothing, or no chain that is too long. -/
theorem of_problems_eq {more : List Problem} (hproblems : s'.problems = s.problems ++ more)
    (hmore : ∀ p ∈ more, p.cause.chain? = none) (hchecks : s'.checks <:+ s.checks) :
    s.Advances s' where
  problems := hproblems ▸ List.subset_append_left _ _
  checks := hchecks
  chain := by
    rw [hproblems]
    exact List.forall_mem_append.mpr ⟨fun _ ↦ .inl, fun p hp ↦ .inr (.inl (hmore p hp))⟩

/-- A step after another one. -/
theorem trans (h : s.Advances s') (h' : s'.Advances s'') : s.Advances s'' where
  problems := List.Subset.trans h.problems h'.problems
  checks := h'.checks.trans h.checks
  chain p hp := by
    rcases h'.chain p hp with hp | hnone | hexhausted
    · exact h.chain p hp
    · exact .inr (.inl hnone)
    · exact .inr (.inr (h.checks.subset hexhausted))

end State.Advances

/-- It was reported that something is too deep. -/
def State.TooDeep (s : State) : Prop := ∃ p ∈ s.problems, p.cause.fault = .tooDeep

/-- From any state, the second step does with enough stack what the first one does, unless the stack
is found exhausted and the first one reports it. -/
def Roomily {α : Type} (x x' : Resolving α) : Prop :=
  ∀ s, s.Advances (x.run s).2 ∧
    (x'.run s.roomy = ((x.run s).1, (x.run s).2.roomy) ∨
      true ∈ s.checks ∧ (x.run s).2.TooDeep)

namespace Roomily

/-- A step that leaves problems and checks alone, and does not depend on the checks. -/
theorem of_eq {α : Type} {x : Resolving α} (hproblems : ∀ s, (x.run s).2.problems = s.problems)
    (hchecks : ∀ s, (x.run s).2.checks = s.checks)
    (hrun : ∀ s, x.run s.roomy = ((x.run s).1, (x.run s).2.roomy)) : Roomily x x := by
  intro s
  have hsame : (x.run s).2.problems = s.problems ++ [] := by rw [hproblems, List.append_nil]
  exact ⟨.of_problems_eq hsame nofun (hchecks s ▸ List.suffix_rfl), .inl (hrun s)⟩

/-- Only a check that finds the stack exhausted makes a difference. -/
theorem congruence : Congruence Eq fun _ ↦ Roomily where
  nowhere := rfl
  pure _ := of_eq (fun _ ↦ rfl) (fun _ ↦ rfl) fun _ ↦ rfl
  bind := by
    intro α β x x' f f' hx hf s
    obtain ⟨hfirst, hcases⟩ := hx s
    obtain ⟨hsecond, hcases'⟩ := hf (x.run s).1 (x.run s).2
    refine ⟨hfirst.trans hsecond, ?_⟩
    rcases hcases with hrun | ⟨hchecks, p, hp, hdeep⟩
    · rcases hcases' with hrun' | ⟨hchecks, hdeep⟩
      · left
        rw [run_bind, run_bind, hrun, hrun']
      · exact .inr ⟨hfirst.checks.subset hchecks, hdeep⟩
    · exact .inr ⟨hchecks, p, hsecond.problems hp, hdeep⟩
  read hf s := hf s s.roomy rfl rfl s
  report := by
    rintro cause location _ hchain rfl s
    refine ⟨.of_problems_eq rfl (List.forall_mem_singleton.mpr ?_) List.suffix_rfl, .inl rfl⟩
    exact hchain
  withinStack := by
    rintro cause location _ hdeep rfl s
    obtain ⟨common, problems, depth, walked, checks⟩ := s
    obtain _ | ⟨_ | _, checks⟩ := checks
    · exact ⟨.of_problems_eq (List.append_nil _).symm nofun List.suffix_rfl, .inl rfl⟩
    · exact ⟨.of_problems_eq (List.append_nil _).symm nofun (List.suffix_cons _ _), .inl rfl⟩
    · have hexhausted : true ∈ true :: checks := List.mem_cons_self
      refine ⟨⟨List.subset_append_left _ _, List.suffix_cons _ _, fun _ _ ↦ .inr (.inr hexhausted)⟩,
        .inr ⟨hexhausted, ⟨cause, location⟩, ?_, hdeep⟩⟩
      exact List.mem_append_right problems List.mem_cons_self
  settle _ _ := of_eq (fun _ ↦ rfl) (fun _ ↦ rfl) fun _ ↦ rfl
  setDepth _ := of_eq (fun _ ↦ rfl) (fun _ ↦ rfl) fun _ ↦ rfl
  noteWalk _ := of_eq (fun _ ↦ rfl) (fun _ ↦ rfl) fun _ ↦ rfl
  closeLevel := of_eq (fun _ ↦ rfl) (fun _ ↦ rfl) fun _ ↦ rfl

end Roomily

section

variable (checks : StackChecks) (index : Index) (extensions : Extensions) (order : List Name)
  (problems : List Problem)

private theorem roomily_resolveParts :
    Roomily (resolveParts index extensions order) (resolveParts index extensions order) :=
  relates_resolveParts Roomily.congruence (corresponds_refl Roomily.congruence fun _ ↦ rfl) order

/-- With enough stack, a run has the same outcome, unless the stack was found exhausted and this was
reported. -/
theorem outcome_resolveIndex_cases :
    outcome ((resolveIndex index extensions order).run (.start checks index problems)) =
        outcome ((resolveIndex index extensions order).run (.start [] index problems)) ∨
      checks.RunsOut (outcome ((resolveIndex index extensions order).run
        (.start checks index problems))) := by
  rw [StackChecks.RunsOut, reported_outcome]
  refine (roomily_resolveParts index extensions order (.start checks index problems)).2.imp_left
    fun hrun ↦ ?_
  change (resolveParts index extensions order).run (.start [] index problems) = _ at hrun
  rw [run_resolveIndex_eq, run_resolveIndex_eq, hrun]
  rfl

/-- A chain that a run reports as too long was reported before, or the stack was found exhausted. -/
theorem chain_of_resolveIndex {p : Problem} (hp : p ∈ reported (outcome
      ((resolveIndex index extensions order).run (.start checks index problems)))) :
    p ∈ problems ∨ p.cause.chain? = none ∨ true ∈ checks := by
  rw [reported_outcome] at hp
  exact (roomily_resolveParts index extensions order _).1.chain p hp

end

end Resolve

open Resolve

variable {checks : StackChecks} {extensions : Extensions} {schemas : List Schema}
  {r : ResolvedSchema}

/-- Schemas resolve to what they resolve to with enough stack, unless the stack is found exhausted
and this is reported. -/
theorem resolveAllUnder_cases (checks : StackChecks) (extensions : Extensions)
    (schemas : List Schema) :
    resolveAllUnder checks extensions schemas = resolveAll extensions schemas ∨
      checks.RunsOut (resolveAllUnder checks extensions schemas) :=
  outcome_resolveIndex_cases checks _ extensions _ _

/-- Where the stack is exhausted inside of a body, this is reported for the type that was to be
walked there. -/
example :
    let length : Identifier := ⟨"Length", by decide⟩
    let size : Identifier := ⟨"Size", by decide⟩
    let aliases : Schema := ⟨.ofList [(none, { Namespace.empty with
      commonTypes := .ofList [(length, ⟨.leaf (.common (.bare size)), ∅, none⟩),
        (size, ⟨.leaf (.primitive .long), ∅, none⟩)] })]⟩
    reported (resolveAllUnder [false, true] .all [aliases]) =
        [⟨.chainTooLong (.bare size), none⟩] ∧
      reported (resolveAllUnder [false, false] .all [aliases]) = [] := by
  decide +kernel

/-- If no check finds the stack exhausted then there is enough of it. -/
theorem resolveAllUnder_of_ample (h : checks.Ample) (extensions : Extensions)
    (schemas : List Schema) :
    resolveAllUnder checks extensions schemas = resolveAll extensions schemas := by
  obtain heq | ⟨hexhausted, -⟩ := resolveAllUnder_cases checks extensions schemas
  · exact heq
  · exact absurd hexhausted h

/-- If no check finds the stack exhausted, what is reported as too deep is so in a declaration that
is named. -/
theorem exists_label_of_tooDeep (h : checks.Ample) {p : Problem}
    (hp : p ∈ reported (resolveAllUnder checks extensions schemas))
    (hdeep : p.cause.fault = .tooDeep) : ∃ label, p.cause = .tooDeep label := by
  have hchain : p.cause.chain? = none := by
    rcases chain_of_resolveIndex checks _ extensions _ _ hp with hcollected | hnone | hexhausted
    · have hrepeated := Index.isSome_repeated? hcollected
      cases hcause : p.cause <;> simp_all [Cause.repeated?, Cause.chain?]
    · exact hnone
    · exact absurd hexhausted h
  cases hcause : p.cause <;> simp_all [Cause.fault, Cause.chain?]

end PolicySchema
