/-!
# Computations that may fail

When a sequence of computations succeeds, and with which values.
-/

namespace PolicySchema.Except

variable {ε α β : Type}

/-- Both computations fail with related errors, or both succeed with related results. -/
inductive Rel (E : ε → ε → Prop) (P : α → α → Prop) : Except ε α → Except ε α → Prop where
  | error {e e'} : E e e' → Rel E P (.error e) (.error e')
  | ok {a a'} : P a a' → Rel E P (.ok a) (.ok a')

/-- Going on after a computation succeeds exactly when both parts do. -/
theorem bind_eq_ok_iff {x : Except ε α} {f : α → Except ε β} {b : β} :
    (x >>= f) = .ok b ↔ ∃ a, x = .ok a ∧ f a = .ok b := by
  cases x <;> simp [bind, Except.bind]

/-- Going on after a computation fails exactly when the first part does, or the second after it. -/
theorem bind_eq_error_iff {x : Except ε α} {f : α → Except ε β} {e : ε} :
    (x >>= f) = .error e ↔ x = .error e ∨ ∃ a, x = .ok a ∧ f a = .error e := by
  cases x <;> simp [bind, Except.bind]

/-- A function of a result succeeds exactly when the result is there. -/
theorem map_eq_ok_iff {x : Except ε α} {f : α → β} {b : β} :
    f <$> x = .ok b ↔ ∃ a, x = .ok a ∧ f a = b := by
  cases x <;> simp [Functor.map, Except.map]

/-- A function of a result fails exactly as the computation does. -/
theorem map_eq_error_iff {x : Except ε α} {f : α → β} {e : ε} :
    f <$> x = .error e ↔ x = .error e := by
  cases x <;> simp [Functor.map, Except.map]

/-- The result of a computation is there exactly when the computation succeeds. -/
theorem toOption_eq_some_iff {x : Except ε α} {a : α} : x.toOption = some a ↔ x = .ok a := by
  cases x <;> simp [Except.toOption]

/-- A computation without a value fails with some error. -/
theorem toOption_eq_none_iff {x : Except ε α} : x.toOption = none ↔ ∃ e, x = .error e := by
  cases x <;> simp [Except.toOption]

/-- A check of every item succeeds exactly when each check does. -/
theorem forM_eq_ok_iff {f : α → Except ε Unit} {l : List α} :
    l.forM f = .ok () ↔ ∀ a ∈ l, f a = .ok () := by
  induction l with
  | nil => simp [pure, Except.pure]
  | cons a l ih =>
    have hcons : (a :: l).forM f = f a >>= fun _ ↦ l.forM f := rfl
    rw [hcons, bind_eq_ok_iff, ih, List.forall_mem_cons]
    constructor
    · rintro ⟨⟨⟩, ha, hl⟩
      exact ⟨ha, hl⟩
    · rintro ⟨ha, hl⟩
      exact ⟨(), ha, hl⟩

/-- A check fails on a list as it does on the first item that it fails on. -/
theorem forM_eq_error {f : α → Except ε Unit} {before after : List α} {a : α} {e : ε}
    (h : ∀ b ∈ before, f b = .ok ()) (ha : f a = .error e) :
    (before ++ a :: after).forM f = .error e := by
  have hcons (b : α) (l : List α) : (b :: l).forM f = f b >>= fun _ ↦ l.forM f := rfl
  induction before with
  | nil =>
    rw [List.nil_append, hcons, ha]
    rfl
  | cons b before ih =>
    rw [List.forall_mem_cons] at h
    rw [List.cons_append, hcons, h.1]
    exact ih h.2

/-- If the success of a function and its value are known, so are those of all its values on a
list. -/
theorem mapM_eq_ok_iff {f : α → Except ε β} {P : α → Prop} {g : α → β}
    {l : List α} {r : List β} (h : ∀ a ∈ l, ∀ b, f a = .ok b ↔ P a ∧ b = g a) :
    l.mapM f = .ok r ↔ (∀ a ∈ l, P a) ∧ r = l.map g := by
  induction l generalizing r with
  | nil => simp [pure, Except.pure, eq_comm]
  | cons a l ih =>
    have ha := h a List.mem_cons_self
    have hrest {r : List β} := ih (r := r) fun b hb ↦ h b (List.mem_cons_of_mem _ hb)
    rw [List.mapM_cons]
    simp only [bind_eq_ok_iff, ha, hrest, pure, Except.pure, Except.ok.injEq, List.forall_mem_cons,
      List.map_cons]
    constructor
    · rintro ⟨b, ⟨hP, rfl⟩, bs, ⟨hPs, rfl⟩, rfl⟩
      exact ⟨⟨hP, hPs⟩, rfl⟩
    · rintro ⟨⟨hP, hPs⟩, rfl⟩
      exact ⟨_, ⟨hP, rfl⟩, _, ⟨hPs, rfl⟩, rfl⟩

/-- Where a function succeeds on a list, each result is its value on an item. -/
theorem exists_of_mem_mapM {f : α → Except ε β} {l : List α} {r : List β} (h : l.mapM f = .ok r)
    {b : β} (hb : b ∈ r) : ∃ a ∈ l, f a = .ok b := by
  induction l generalizing r with
  | nil =>
    cases h
    cases hb
  | cons a l ih =>
    rw [List.mapM_cons] at h
    obtain ⟨c, hc, h⟩ := bind_eq_ok_iff.mp h
    obtain ⟨rest, hrest, ⟨⟩⟩ := bind_eq_ok_iff.mp h
    rcases List.mem_cons.mp hb with rfl | hb
    · exact ⟨a, List.mem_cons_self, hc⟩
    · obtain ⟨a', ha', hf⟩ := ih hrest hb
      exact ⟨a', List.mem_cons_of_mem _ ha', hf⟩

/-- A function that succeeds on each item succeeds on the list. -/
theorem mapM_of_ok {f : α → Except ε β} {g : α → β} {l : List α}
    (h : ∀ a ∈ l, f a = .ok (g a)) : l.mapM f = .ok (l.map g) := by
  refine (mapM_eq_ok_iff (P := fun _ ↦ True) ?_).mpr ⟨fun _ _ ↦ trivial, rfl⟩
  intro a ha b
  rw [h a ha]
  simp [eq_comm]

/-- Whether a computation succeeds, or why it fails. -/
def status (x : Except ε α) : Except ε Unit := x.map fun _ ↦ ()

/-- The status is a success exactly when the computation has a value. -/
theorem status_eq_ok_iff {x : Except ε α} : status x = .ok () ↔ ∃ a, x = .ok a := by
  cases x <;> simp [status, Except.map]

/-- The status keeps the error of a failed computation. -/
theorem status_eq_error_iff {x : Except ε α} {e : ε} : status x = .error e ↔ x = .error e := by
  cases x <;> simp [status, Except.map]

/-- What is done with a result to give another does not fail. -/
theorem status_bind_pure (x : Except ε α) (f : α → β) :
    status (x >>= fun a ↦ pure (f a)) = status x := by
  cases x <;> rfl

/-- One computation after another fails as the first that fails does. -/
theorem status_bind (x : Except ε α) {f : α → Except ε β} {y : Except ε Unit}
    (h : ∀ a, status (f a) = y) : status (x >>= f) = status x >>= fun _ ↦ y := by
  cases x with
  | error e => rfl
  | ok a => exact h a

/-- A function fails on a list as the check of every item for its failure does. -/
theorem status_mapM (f : α → Except ε β) (l : List α) :
    status (l.mapM f) = l.forM fun a ↦ status (f a) := by
  induction l with
  | nil => rfl
  | cons a l ih =>
    rw [List.mapM_cons]
    exact status_bind _ fun b ↦ (status_bind_pure _ _).trans ih

end PolicySchema.Except
