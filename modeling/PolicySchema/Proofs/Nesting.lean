import Mathlib.Logic.Function.Iterate
import PolicySchema.Proofs.References

/-!
# Depth, part by part

The two measures of nesting agree: working through a stack of pending parts comes to an end, after
one step for each leaf, set and record (`Measurement.iterate_step`), and gives the depth of the type
(`TypeExpr.nestingDepth_eq_depth`).
-/

namespace PolicySchema

variable {ρ : Type} {around k : Nat}

private theorem Fields.add_depth_le_iff {f : Fields ρ} :
    around + f.depth ≤ k ↔ around ≤ k ∧ ∀ e ∈ f.toList, around + e.2.type.depth ≤ k := by
  have hfields := Fields.depth_le_iff (f := f) (n := k - around)
  constructor
  · intro hk
    refine ⟨by omega, fun e he ↦ ?_⟩
    have hdepth := hfields.mp (by omega) e he
    omega
  · rintro ⟨hk, hall⟩
    have hdepth := hfields.mpr fun e he ↦ Nat.le_sub_of_add_le' (hall e he)
    omega

namespace Measurement

/-- A measurement takes as many steps as there is work, and then nothing is pending. -/
theorem iterate_step (m : Measurement ρ) : step^[m.work] m = ⟨m.finish, []⟩ := by
  fun_induction finish m with
  | case1 m hpending =>
    rw [work, hpending]
    change m = _
    rw [← hpending]
  | case2 m p rest hpending ih => rw [← work_step hpending, Function.iterate_succ_apply, ih]

private def StaysWithin (m : Measurement ρ) (k : Nat) : Prop :=
  m.deepest ≤ k ∧ ∀ p ∈ m.pending, p.2 + p.1.depth ≤ k

private theorem staysWithin_step {m : Measurement ρ} : m.step.StaysWithin k ↔ m.StaysWithin k := by
  obtain ⟨deepest, pending⟩ := m
  simp only [StaysWithin]
  fun_cases step ⟨deepest, pending⟩ with
  | case1 h => rfl
  | case2 r around rest h =>
    obtain rfl : pending = _ := h
    rw [List.forall_mem_cons, TypeExpr.depth, Nat.add_zero, Nat.max_le, and_assoc]
  | case3 element around rest h =>
    obtain rfl : pending = _ := h
    rw [List.forall_mem_cons, List.forall_mem_cons, TypeExpr.depth, Nat.add_right_comm,
      Nat.add_assoc]
  | case4 fields notes around rest h =>
    obtain rfl : pending = _ := h
    simp only [List.forall_mem_append, List.mem_reverse, List.forall_mem_map]
    rw [List.forall_mem_cons, TypeExpr.depth, Nat.max_le, ← Nat.add_assoc, Nat.add_right_comm,
      Fields.add_depth_le_iff, and_assoc, and_assoc]

-- What a measurement comes to is the greatest of the depth met so far and the depths to which the
-- pending parts lead.
private theorem finish_le_iff {m : Measurement ρ} : m.finish ≤ k ↔ m.StaysWithin k := by
  fun_induction finish m with
  | case1 m hpending => simp [StaysWithin, hpending]
  | case2 m p rest hpending ih => rw [ih, staysWithin_step]

end Measurement

/-- Measuring a type part by part gives its depth. -/
theorem TypeExpr.nestingDepth_eq_depth (t : TypeExpr ρ) : t.nestingDepth = t.depth := by
  have h (k : Nat) : t.nestingDepth ≤ k ↔ t.depth ≤ k := by
    rw [nestingDepth, Measurement.finish_le_iff]
    simp [Measurement.StaysWithin, Measurement.start]
  exact Nat.le_antisymm ((h _).mpr (Nat.le_refl _)) ((h _).mp (Nat.le_refl _))

end PolicySchema
