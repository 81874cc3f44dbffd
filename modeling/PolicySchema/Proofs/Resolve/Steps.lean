import PolicySchema.Resolve.Outcome

/-!
# What single steps do

The state that each step leads to, in terms of the state before it. Where the stack is checked there
are two cases. In the first one it is exhausted, which is reported.
-/

namespace PolicySchema.Resolve

variable {α β : Type}

namespace Resolving

/-- The second step runs in the state that the first leads to. -/
theorem run_bind (x : Resolving α) (f : α → Resolving β) (s : State) :
    (x >>= f).run s = (f (x.run s).1).run (x.run s).2 := rfl

/-- A step that reads the state goes on in this state. -/
theorem run_get_bind (f : State → Resolving β) (s : State) :
    (get >>= f).run s = (f s).run s := rfl

end Resolving

open Resolving

/-! ### States -/

namespace State

/-- One more problem was reported. -/
def withProblem (s : State) (cause : Cause) (location : Option Location) : State :=
  { s with problems := s.problems ++ [⟨cause, location⟩] }

/-- The stack was checked once. -/
def checked (s : State) : State := { s with checks := s.checks.tail }

/-- The body of a common type is being walked, with no set or record open. -/
def opened (s : State) (n : Name) : State :=
  { s with
    common := s.common.insert n .walking
    depth := 0
    walked := n :: s.walked
    checks := s.checks.tail }

/-- The body of a common type was walked, which began in the state `before` and led to `s`, and its
outcome is noted. -/
def closed (s before : State) (n : Name) (outcome : Option (ResolvedType × Nat)) : State :=
  { s with common := s.common.insert n (.settled outcome), depth := before.depth }

/-- The body of a common type was not walked, since the stack was exhausted. -/
def refused (s : State) (n : Name) (location : Option Location) : State :=
  { s.checked.withProblem (.chainTooLong n) location with
    common := (s.common.insert n .walking).insert n (.settled none) }

/-- A check of a stack that is large enough changes nothing. -/
theorem checked_eq {s : State} (hs : s.checks = []) : s.checked = s := by
  obtain ⟨common, problems, depth, walked, checks⟩ := s
  cases hs
  rfl

end State

/-! ### Checks -/

section

variable {cause : Cause} {location : Option Location} {origin : Origin} {depth : Nat} {s : State}

/-- The stack is found exhausted and this is reported, or there is some left. -/
theorem run_withinStack_cases (cause : Cause) (location : Option Location) (s : State) :
    (true ∈ s.checks ∧
      (withinStack cause location).run s = (false, s.checked.withProblem cause location)) ∨
    (withinStack cause location).run s = (true, s.checked) := by
  obtain ⟨common, problems, depth, walked, _ | ⟨_ | _, checks⟩⟩ := s
  · exact .inr rfl
  · exact .inr rfl
  · exact .inl ⟨List.mem_cons_self, rfl⟩

/-- Too many sets and records are reported, whatever is left of the stack. -/
theorem run_withinDepth_of_lt (h : TypeExpr.maxDepth < depth) :
    (withinDepth origin depth).run s =
      (false, s.withProblem (.tooDeep origin.label) origin.location) := by
  rw [withinDepth, if_pos h]
  rfl

/-- With enough stack, as many sets and records as are allowed may be open. -/
theorem run_withinDepth_of_le (hs : s.checks = []) (h : depth ≤ TypeExpr.maxDepth) :
    (withinDepth origin depth).run s = (true, s) := by
  rw [withinDepth, if_neg (Nat.not_lt.mpr h)]
  obtain ⟨hmem, -⟩ | hrun :=
    run_withinStack_cases (.tooDeep origin.label) origin.location s
  · simp [hs] at hmem
  · rw [hrun, s.checked_eq hs]

/-- Sets and records may nest as deep as this, or it is reported that they may not. -/
theorem run_withinDepth_cases (origin : Origin) (depth : Nat) (s : State) :
    (TypeExpr.maxDepth < depth ∨ true ∈ s.checks) ∧
      (∃ checks, checks <:+ s.checks ∧ (withinDepth origin depth).run s =
        (false, { s.withProblem (.tooDeep origin.label) origin.location with checks })) ∨
    depth ≤ TypeExpr.maxDepth ∧ (withinDepth origin depth).run s = (true, s.checked) := by
  by_cases h : TypeExpr.maxDepth < depth
  · exact .inl ⟨.inl h, s.checks, List.suffix_rfl, run_withinDepth_of_lt h⟩
  · rw [withinDepth, if_neg h]
    obtain ⟨hmem, hrun⟩ | hrun :=
      run_withinStack_cases (.tooDeep origin.label) origin.location s
    · exact .inl ⟨.inr hmem, s.checks.tail, List.tail_suffix _, hrun⟩
    · exact .inr ⟨Nat.not_lt.mp h, hrun⟩

/-! ### Sets and records -/

/-- With enough stack, a set or a record is opened where this is not too deep. -/
theorem run_openLevel_of_lt (hs : s.checks = []) (h : s.depth < TypeExpr.maxDepth) :
    (openLevel origin).run s = (true, { s with depth := s.depth + 1 }) := by
  rw [openLevel, run_get_bind, run_bind, run_withinDepth_of_le hs h]
  rfl

/-- Where sets and records are open as deep as is allowed, none is opened. -/
theorem run_openLevel_of_ge (h : TypeExpr.maxDepth ≤ s.depth) :
    (openLevel origin).run s = (false, s.withProblem (.tooDeep origin.label) origin.location) := by
  rw [openLevel, run_get_bind, run_bind, run_withinDepth_of_lt (Nat.lt_succ_of_le h)]
  rfl

/-- A set or a record is opened, or it is reported that it cannot be. -/
theorem run_openLevel_cases (origin : Origin) (s : State) :
    (TypeExpr.maxDepth ≤ s.depth ∨ true ∈ s.checks) ∧
      (∃ checks, checks <:+ s.checks ∧ (openLevel origin).run s =
        (false, { s.withProblem (.tooDeep origin.label) origin.location with checks })) ∨
    s.depth < TypeExpr.maxDepth ∧
      (openLevel origin).run s = (true, { s.checked with depth := s.depth + 1 }) := by
  rw [openLevel, run_get_bind, run_bind]
  obtain ⟨hwhy, checks, hchecks, hrun⟩ | ⟨h, hrun⟩ := run_withinDepth_cases origin (s.depth + 1) s
  · exact .inl ⟨hwhy.imp_left Nat.le_of_lt_succ, checks, hchecks, by rw [hrun]; rfl⟩
  · exact .inr ⟨h, by rw [hrun]; rfl⟩

/-! ### Common types -/

variable {t : ResolvedType}

/-- With enough stack, an outcome is put in place where it fits. -/
theorem run_placeInside_of_le (hs : s.checks = []) (h : s.depth + depth ≤ TypeExpr.maxDepth) :
    (placeInside origin (some (t, depth))).run s = (some t, s) := by
  rw [placeInside, run_get_bind, run_bind, run_withinDepth_of_le hs h]
  rfl

/-- An outcome is not put in place where it is too deep. -/
theorem run_placeInside_of_lt (h : TypeExpr.maxDepth < s.depth + depth) :
    (placeInside origin (some (t, depth))).run s =
      (none, s.withProblem (.tooDeep origin.label) origin.location) := by
  rw [placeInside, run_get_bind, run_bind, run_withinDepth_of_lt h]
  rfl

/-- An outcome is put in place, or it is reported that it cannot be. -/
theorem run_placeInside_cases (origin : Origin) (t : ResolvedType) (depth : Nat) (s : State) :
    (TypeExpr.maxDepth < s.depth + depth ∨ true ∈ s.checks) ∧
      (∃ checks, checks <:+ s.checks ∧ (placeInside origin (some (t, depth))).run s =
        (none, { s.withProblem (.tooDeep origin.label) origin.location with checks })) ∨
    s.depth + depth ≤ TypeExpr.maxDepth ∧
      (placeInside origin (some (t, depth))).run s = (some t, s.checked) := by
  rw [placeInside, run_get_bind, run_bind]
  obtain ⟨hwhy, checks, hchecks, hrun⟩ | ⟨h, hrun⟩ :=
    run_withinDepth_cases origin (s.depth + depth) s
  · exact .inl ⟨hwhy, checks, hchecks, by rw [hrun]; rfl⟩
  · exact .inr ⟨h, by rw [hrun]; rfl⟩

variable {index : Index} {extensions : Extensions} {inner : Inliner} {n : Name}
  {body : Placed (TypeExpr TypeRef)}

/-- The body of a common type is walked and its outcome is noted, or it is reported that there is no
stack left for it. -/
theorem run_walkBody_cases (index : Index) (extensions : Extensions) (inner : Inliner) (n : Name)
    (body : Placed (TypeExpr TypeRef)) (s : State) :
    (true ∈ s.checks ∧ (walkBody index extensions inner n body).run s =
      (none, s.refused n body.declaration.location)) ∨
    (walkBody index extensions inner n body).run s =
      let found := (resolveBody index extensions inner n body).run (s.opened n)
      (withDepth found.1, found.2.closed s n (withDepth found.1)) := by
  obtain ⟨common, problems, depth, walked, _ | ⟨_ | _, checks⟩⟩ := s
  · exact .inr rfl
  · exact .inr rfl
  · exact .inl ⟨List.mem_cons_self, rfl⟩

/-- With enough stack, the body of a common type is walked and its outcome is noted. -/
theorem run_walkBody_of_nil (hs : s.checks = []) :
    (walkBody index extensions inner n body).run s =
      let found := (resolveBody index extensions inner n body).run (s.opened n)
      (withDepth found.1, found.2.closed s n (withDepth found.1)) := by
  obtain ⟨hmem, -⟩ | hrun := run_walkBody_cases index extensions inner n body s
  · simp [hs] at hmem
  · exact hrun

end

end PolicySchema.Resolve
