import PolicySchema.Proofs.Resolve.Congruence
import PolicySchema.Proofs.Resolve.TypeProblems

/-!
# Runs with fewer extension types

Two runs with enough stack are set side by side, of which the first one has fewer extension types
enabled. As long as the second one finds no problem, the first one walks the same bodies, and gives
what the second one gives or nothing (`Trails`). It only reports the references that are at fault
with fewer extension types, each where it stands: a body without a type is put in place of
references without another problem.
-/

namespace PolicySchema.Resolve

open Resolving

variable {α β : Type}

/-! ### States side by side -/

/-- The first result is the second one, or it was lost. -/
inductive Lost {α : Type} : Option α → Option α → Prop where
  | same (a : Option α) : Lost a a
  | lost (a : Option α) : Lost none a

/-- A value lost on the way to one result is lost on the way to its image. -/
theorem Lost.map {a b : Option α} (h : Lost a b) (f : α → β) : Lost (a.map f) (b.map f) := by
  cases h with
  | same => exact .same _
  | lost => exact .lost _

/-- As much is known in both states, but the first outcome may be lost. -/
inductive Progress.Trails : Progress → Progress → Prop where
  | waiting : Trails .waiting .waiting
  | walking : Trails .walking .walking
  | settled {outcome outcome'} : Lost outcome outcome' →
      Trails (.settled outcome) (.settled outcome')

/-- A state of progress trails itself. -/
theorem Progress.Trails.refl (progress : Progress) : progress.Trails progress := by
  cases progress with
  | waiting => exact .waiting
  | walking => exact .walking
  | settled outcome => exact .settled (.same outcome)

/-- The states are the same but for lost outcomes and the problems. With the problems `owed`, the
first one has the problems `total` and those in the bodies that were walked. There is enough stack
in both. -/
structure State.Trails (index : Index) (fewer : Extensions) (total owed : List Problem)
    (s t : State) : Prop where
  depth : s.depth = t.depth
  walked : s.walked = t.walked
  common : ∀ n, Option.Rel Progress.Trails (s.common.find? n) (t.common.find? n)
  problems : (s.problems ++ owed).Perm (total ++ s.walked.flatMap (index.bodyFaults fewer))
  roomy : s.checks = []
  roomy' : t.checks = []

/-- If the second step ends without a problem then it began without one, and the first step beside
it reports the problems `own` of those that are owed, and gives a related result. -/
structure Trails (index : Index) (fewer : Extensions) (total own : List Problem)
    (x y : Resolving α) (Q : α → α → Prop) : Prop where
  clean : ∀ t, (y.run t).2.problems = [] → t.problems = []
  run : ∀ s t rest, State.Trails index fewer total (own ++ rest) s t →
    (y.run t).2.problems = [] →
      State.Trails index fewer total rest (x.run s).2 (y.run t).2 ∧ Q (x.run s).1 (y.run t).1

variable {index : Index} {fewer more : Extensions} {total own own' : List Problem}

/-! ### Rules -/

namespace Trails

variable {x y : Resolving α} {Q R : α → α → Prop}

/-- Two related values trail each other without a report. -/
theorem pure {a b : α} (h : Q a b) :
    Trails index fewer total [] (Pure.pure a : Resolving α) (Pure.pure b) Q :=
  ⟨fun _ ht ↦ ht, fun _ _ _ hs _ ↦ ⟨hs, h⟩⟩

/-- The second steps run in the states that the first ones lead to. -/
theorem bind_of_clean {f g : α → Resolving β} {S : β → β → Prop}
    (hx : Trails index fewer total own x y Q)
    (hg : ∀ b t, ((g b).run t).2.problems = [] → t.problems = [])
    (hf : ∀ a b, Q a b → Trails index fewer total own' (f a) (g b) S) :
    Trails index fewer total (own ++ own') (x >>= f) (y >>= g) S := by
  refine ⟨fun t ht ↦ hx.clean t (hg _ _ ht), fun s t rest hs ht ↦ ?_⟩
  rw [List.append_assoc] at hs
  obtain ⟨hs', ha⟩ := hx.run s t _ hs (hg _ _ ht)
  exact (hf _ _ ha).run _ _ rest hs' ht

/-- The continuation trails wherever the first computation leaves the two runs. -/
theorem bind {f g : α → Resolving β} {S : β → β → Prop}
    (hx : Trails index fewer total own x y Q) (hQ : ∀ a, Q a a)
    (hf : ∀ a b, Q a b → Trails index fewer total own' (f a) (g b) S) :
    Trails index fewer total (own ++ own') (x >>= f) (y >>= g) S :=
  hx.bind_of_clean (fun b ↦ (hf b b (hQ b)).clean) hf

/-- The second steps report nothing that is owed. -/
theorem bind_nil {f g : α → Resolving β} {S : β → β → Prop}
    (hx : Trails index fewer total own x y Q) (hQ : ∀ a, Q a a)
    (hf : ∀ a b, Q a b → Trails index fewer total [] (f a) (g b) S) :
    Trails index fewer total own (x >>= f) (y >>= g) S :=
  List.append_nil own ▸ hx.bind hQ hf

/-- Steps that read the states may rely on what is the same in them. -/
theorem get_bind {f g : State → Resolving α}
    (h : ∀ s t, s.depth = t.depth →
      (∀ n, Option.Rel Progress.Trails (s.common.find? n) (t.common.find? n)) →
        Trails index fewer total own (f s) (g t) Q) :
    Trails index fewer total own (get >>= f) (get >>= g) Q :=
  ⟨fun t ↦ (h t t rfl fun _ ↦ rel_refl .refl _).clean t,
    fun s t rest hs ↦ (h s t hs.depth hs.common).run s t rest hs⟩

end Trails

/-! ### Problems -/

section

variable {origin : Origin}

private theorem trails_setDepth (depth : Nat) :
    Trails index fewer total [] (setDepth depth) (setDepth depth) Eq :=
  ⟨fun _ ht ↦ ht, fun _ _ _ hs _ ↦
    ⟨⟨rfl, hs.walked, hs.common, hs.problems, hs.roomy, hs.roomy'⟩, rfl⟩⟩

private theorem trails_closeLevel : Trails index fewer total [] closeLevel closeLevel Eq :=
  ⟨fun _ ht ↦ ht, fun _ _ _ hs _ ↦
    ⟨⟨congrArg (· - 1) hs.depth, hs.walked, hs.common, hs.problems, hs.roomy, hs.roomy'⟩, rfl⟩⟩

private theorem problems_withProblem_ne_nil (t : State) (cause : Cause)
    (location : Option Location) : (t.withProblem cause location).problems ≠ [] :=
  List.append_ne_nil_of_right_ne_nil t.problems (List.cons_ne_nil _ _)

private theorem trails_withinDepth (depth : Nat) :
    Trails index fewer total [] (withinDepth origin depth) (withinDepth origin depth)
      fun a b ↦ a = true ∧ b = true := by
  refine ⟨fun t ht ↦ ?_, fun s t rest hs ht ↦ ?_⟩
  · obtain ⟨-, checks, -, hrun⟩ | ⟨-, hrun⟩ := run_withinDepth_cases origin depth t <;>
      rw [hrun] at ht
    · exact absurd ht (problems_withProblem_ne_nil t _ _)
    · exact ht
  · by_cases hdepth : depth ≤ TypeExpr.maxDepth
    · rw [run_withinDepth_of_le hs.roomy hdepth, run_withinDepth_of_le hs.roomy' hdepth]
      exact ⟨hs, rfl, rfl⟩
    · rw [run_withinDepth_of_lt (Nat.not_le.mp hdepth)] at ht
      exact absurd ht (problems_withProblem_ne_nil t _ _)

private theorem trails_openLevel :
    Trails index fewer total [] (openLevel origin) (openLevel origin)
      fun a b ↦ a = true ∧ b = true := by
  apply Trails.get_bind
  intro s t hdepth _
  rw [hdepth]
  apply (trails_withinDepth _).bind_of_clean
  · rintro (_ | _) t ht <;> exact ht
  · rintro a b ⟨rfl, rfl⟩
    exact (trails_setDepth _).bind (fun _ ↦ rfl) fun _ _ _ ↦ .pure ⟨rfl, rfl⟩

private theorem trails_inside {x y : Resolving (Option β)} (make : β → ResolvedType)
    (hx : Trails index fewer total own x y Lost) :
    Trails index fewer total own
      (do
        if ← openLevel origin then
          let b ← x
          closeLevel
          pure (b.map make)
        else pure none)
      (do
        if ← openLevel origin then
          let b ← y
          closeLevel
          pure (b.map make)
        else pure none) Lost := by
  have hinside : Trails index fewer total own
      (do
        let b ← x
        closeLevel
        pure (b.map make))
      (do
        let b ← y
        closeLevel
        pure (b.map make)) Lost := by
    have hclose (a b : Option β) (hab : Lost a b) : Trails index fewer total []
        (do closeLevel; pure (a.map make)) (do closeLevel; pure (b.map make)) Lost :=
      trails_closeLevel.bind (fun _ ↦ rfl) fun _ _ _ ↦ .pure (hab.map make)
    exact hx.bind_nil .same hclose
  apply trails_openLevel.bind_of_clean
  · rintro (_ | _) t ht
    · exact ht
    · exact hinside.clean t ht
  · rintro a b ⟨rfl, rfl⟩
    exact hinside

/-! ### Types -/

variable {leaf leaf' : TypeRef → Resolving (Option ResolvedType)}
  {fault? : TypeRef → Option Problem}

mutual

private theorem trails_resolveWith
    (hleaf : ∀ r, Trails index fewer total (fault? r).toList (leaf r) (leaf' r) Lost)
    (t : TypeExpr TypeRef) :
    Trails index fewer total (t.leaves.filterMap fault?) (resolveWith leaf origin t)
      (resolveWith leaf' origin t) Lost := by
  match t with
  | .leaf r =>
    have hown : (TypeExpr.leaf r).leaves.filterMap fault? = (fault? r).toList := by
      rw [TypeExpr.leaves, List.filterMap_cons]
      cases fault? r <;> rfl
    rw [hown]
    exact hleaf r
  | .set element => exact trails_inside .set (trails_resolveWith hleaf element)
  | .record fields notes =>
    exact trails_inside (.record · notes) (trails_resolveFieldsWith hleaf fields)

private theorem trails_resolveFieldsWith
    (hleaf : ∀ r, Trails index fewer total (fault? r).toList (leaf r) (leaf' r) Lost)
    (fields : Fields TypeRef) :
    Trails index fewer total (fields.leaves.filterMap fault?)
      (resolveFieldsWith leaf origin fields) (resolveFieldsWith leaf' origin fields) Lost := by
  match fields with
  | .nil => exact .pure (.same _)
  | .cons key t required notes rest =>
    rw [Fields.leaves, List.filterMap_append]
    apply (trails_resolveWith hleaf t).bind .same
    intro a b hab
    apply (trails_resolveFieldsWith hleaf rest).bind_nil .same
    intro a' b' hab'
    cases hab with
    | lost => cases a' <;> cases b <;> cases b' <;> exact .pure (.lost _)
    | same =>
      cases hab' with
      | lost => cases a <;> cases b' <;> exact .pure (.lost _)
      | same => cases a <;> cases a' <;> exact .pure (.same _)

end

/-! ### References -/

section

variable {ns : Option Name}

end

end

end PolicySchema.Resolve
