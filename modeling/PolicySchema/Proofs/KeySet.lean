import PolicySchema.Proofs.Table

/-!
# Key sets as finite sets

A key set is determined by its members, whether they were added one by one or come from a list.
-/

namespace PolicySchema.KeySet

universe u

variable {κ : Type u} [Ord κ] {s t : KeySet κ} {k : κ} {ks : List κ}

/-- The empty set has no members. -/
theorem not_contains_empty : (∅ : KeySet κ).contains k ≠ true := nofun

variable [Std.LawfulEqOrd κ]

/-- The list of members holds the members. -/
theorem mem_toList_iff : k ∈ s.toList ↔ s.contains k = true := Table.mem_keys_iff

variable [Std.TransOrd κ]

/-- Sets with the same members are equal. -/
theorem ext (h : ∀ k, s.contains k = true ↔ t.contains k = true) : s = t := by
  apply Table.ext_find?
  intro k
  have hk : (s.find? k).isSome = (t.find? k).isSome := Bool.eq_iff_iff.mpr (h k)
  cases hs : s.find? k <;> cases ht : t.find? k <;> simp_all

/-- Adding keys adds them alone. -/
theorem contains_addAll :
    (s.addAll ks).contains k = true ↔ s.contains k = true ∨ k ∈ ks := by
  rw [addAll]
  induction ks generalizing s with
  | nil => simp
  | cons j ks ih =>
    rw [List.foldl_cons, ih, contains_add, List.mem_cons, or_assoc]

/-- The set of the members of a list has these members. -/
theorem contains_ofList : (ofList ks).contains k = true ↔ k ∈ ks := by
  rw [ofList, contains_addAll, or_iff_right not_contains_empty]

end PolicySchema.KeySet
