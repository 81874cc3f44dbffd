import PolicySchema.Proofs.Name

/-!
# The order of names

Names are compared component by component. The first components that differ decide, and if there are
none, the shorter name comes first (`compare_eq_lt_iff`). This is a total order in which names that
compare equal are the same, and what encloses two names does not change how they compare.
-/

namespace PolicySchema

/-- Comparing orders the values, and only a value itself compares equal to it. -/
structure IsTotalOrder {α : Type} (cmp : α → α → Ordering) : Prop where
  eq_iff : ∀ a b, cmp a b = .eq ↔ a = b
  swap : ∀ a b, cmp b a = (cmp a b).swap
  total : ∀ a b, (cmp a b).isLE = true ∨ (cmp b a).isLE = true
  antisymm : ∀ a b, (cmp a b).isLE = true → (cmp b a).isLE = true → a = b
  trans : ∀ a b c, (cmp a b).isLE = true → (cmp b c).isLE = true → (cmp a c).isLE = true
  lt_trans : ∀ a b c, cmp a b = .lt → cmp b c = .lt → cmp a c = .lt

private theorem isTotalOrder_compare {α : Type} [Ord α] [Std.TransOrd α] [Std.LawfulEqOrd α] :
    IsTotalOrder (compare : α → α → Ordering) where
  eq_iff _ _ := Std.LawfulEqCmp.compare_eq_iff_eq
  swap _ _ := Std.OrientedCmp.eq_swap
  total a b := by
    rw [Std.OrientedOrd.eq_swap (a := b)]
    cases compare a b <;> simp
  antisymm _ _ hab hba := Std.LawfulEqCmp.eq_of_compare (Std.OrientedCmp.isLE_antisymm hab hba)
  trans _ _ _ := Std.TransCmp.isLE_trans
  lt_trans _ _ _ := Std.TransCmp.lt_trans

/-! ### Lists -/

section Lists

variable {α : Type} [Ord α] [Std.LawfulEqOrd α] {as bs : List α}

-- A list precedes another that goes on after it, and one with a greater item at the first place
-- where they differ.
private theorem compare_list_eq_lt_iff :
    compare as bs = .lt ↔ (∃ more, more ≠ [] ∧ bs = as ++ more) ∨
      ∃ shared a b, shared ++ [a] <+: as ∧ shared ++ [b] <+: bs ∧ compare a b = .lt := by
  induction as generalizing bs with
  | nil => cases bs <;> simp
  | cons a as ih =>
    cases bs with
    | nil => simp
    | cons b bs =>
      rw [List.compare_cons_cons, Ordering.then_eq_lt, ih, Std.LawfulEqCmp.compare_eq_iff_eq]
      constructor
      · rintro (hlt | ⟨rfl, ⟨more, hmore, rfl⟩ | ⟨shared, x, y, hx, hy, hlt⟩⟩)
        · exact .inr ⟨[], a, b, by simp, by simp, hlt⟩
        · exact .inl ⟨more, hmore, rfl⟩
        · exact .inr ⟨a :: shared, x, y, by simpa using hx, by simpa using hy, hlt⟩
      · rintro (⟨more, hmore, heq⟩ | ⟨shared, x, y, hx, hy, hlt⟩)
        · obtain ⟨rfl, rfl⟩ := List.cons.inj heq
          exact .inr ⟨rfl, .inl ⟨more, hmore, rfl⟩⟩
        · cases shared with
          | nil =>
            obtain ⟨rfl, -⟩ := List.cons_prefix_cons.mp hx
            obtain ⟨rfl, -⟩ := List.cons_prefix_cons.mp hy
            exact .inl hlt
          | cons c shared =>
            obtain ⟨rfl, hx'⟩ := List.cons_prefix_cons.mp hx
            obtain ⟨rfl, hy'⟩ := List.cons_prefix_cons.mp hy
            exact .inr ⟨rfl, .inr ⟨shared, x, y, hx', hy', hlt⟩⟩

private theorem compare_append_left (shared : List α) :
    compare (shared ++ as) (shared ++ bs) = compare as bs := by
  induction shared with
  | nil => rfl
  | cons a shared ih =>
    rw [List.cons_append, List.cons_append, List.compare_cons_cons, Std.ReflOrd.compare_self]
    exact ih

end Lists

namespace Name

variable {a b : Name}

private theorem compare_components (a b : Name) : compare a b = compare a.components b.components :=
  rfl

/-- A name precedes those that extend it, and those with a greater component at the first place
where they differ. -/
theorem compare_eq_lt_iff :
    compare a b = .lt ↔ (∃ more, more ≠ [] ∧ b.components = a.components ++ more) ∨
      ∃ shared x y, shared ++ [x] <+: a.components ∧ shared ++ [y] <+: b.components ∧
        compare x y = .lt := by
  rw [compare_components, compare_list_eq_lt_iff]

private theorem compare_append (outer a b : Name) :
    compare (outer ++ a) (outer ++ b) = compare a b := by
  rw [compare_components, components_append, components_append, compare_append_left]
  rfl

private theorem append_assoc (a b c : Name) : a ++ b ++ c = a ++ (b ++ c) := by
  apply components_inj.mp
  simp only [components_append, List.append_assoc]

/-- The order of names is total, and it goes by components: a name precedes those that extend it,
and what encloses two names does not change how they compare. Putting names inside one another is
associative, and the full name of what a namespace declares determines both of them. -/
theorem compare_lawful :
    IsTotalOrder (compare : Name → Name → Ordering) ∧
    (∀ (a b : Name) (more : List Identifier), more ≠ [] →
      b.components = a.components ++ more → compare a b = .lt) ∧
    (∀ outer a b : Name, compare (outer ++ a) (outer ++ b) = compare a b) ∧
    (∀ a b c : Name, a ++ b ++ c = a ++ (b ++ c)) ∧
    ∀ (ns ns' : Option Name) (id id' : Identifier),
      under ns id = under ns' id' → ns = ns' ∧ id = id' :=
  ⟨isTotalOrder_compare, fun _ _ more hmore hb ↦ compare_eq_lt_iff.mpr (.inl ⟨more, hmore, hb⟩),
    compare_append, append_assoc, fun _ _ _ _ ↦ under_inj.mp⟩

/-- A name precedes what it encloses, which precedes a name with a greater component. -/
theorem compare_lawful_enclosed :
    let a : Name := .bare ⟨"A", by decide⟩
    let ab : Name := ⟨[⟨"A", by decide⟩], ⟨"B", by decide⟩⟩
    let b : Name := .bare ⟨"B", by decide⟩
    compare a ab = .lt ∧ compare ab b = .lt ∧ compare a b = .lt := by
  intro a ab b
  obtain ⟨horder, hextend, -⟩ := compare_lawful
  have haab : compare a ab = .lt := hextend a ab [⟨"B", by decide⟩] (by simp) rfl
  have habb : compare ab b = .lt := by decide
  exact ⟨haab, habb, horder.lt_trans a ab b haab habb⟩

end Name

end PolicySchema
