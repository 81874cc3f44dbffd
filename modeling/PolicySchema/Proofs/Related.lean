import Mathlib.Data.List.Basic
import Mathlib.Data.List.Forall2
import PolicySchema.Proofs.Table

/-!
# Related optional values, lists and tables

Two optional values are related if both are missing, or both are there and what they hold is
related. A list has one value for each item of another list that is related to a value
(`OneForEach`). Tables that are related key by key are related entry by entry.
-/

namespace PolicySchema

variable {α β γ : Type} {P Q : α → β → Prop} {a : Option α} {b : Option β}

/-- Two copies of one option are related by a reflexive relation. -/
theorem rel_refl {R : α → α → Prop} (h : ∀ x, R x x) (a : Option α) : Option.Rel R a a := by
  cases a with
  | none => exact .none
  | some x => exact .some (h x)

/-- Related options stay related by a weaker relation. -/
theorem rel_imp (h : Option.Rel P a b) (hPQ : ∀ x y, P x y → Q x y) : Option.Rel Q a b := by
  cases h with
  | some hab => exact .some (hPQ _ _ hab)
  | none => exact .none

/-- Values stay related when those on the right are changed. -/
theorem rel_map {R : α → γ → Prop} {f : β → γ} (h : Option.Rel P a b)
    (hf : ∀ x y, P x y → R x (f y)) : Option.Rel R a (b.map f) := by
  cases h with
  | none => exact .none
  | some h => exact .some (hf _ _ h)

/-- Related values stay related when those on both sides are changed. -/
theorem rel_map_map {α' β' : Type} {R : α' → β' → Prop} {f : α → α'} {g : β → β'}
    (h : Option.Rel P a b) (hfg : ∀ x y, P x y → R (f x) (g y)) :
    Option.Rel R (a.map f) (b.map g) := by
  cases h with
  | none => exact .none
  | some h => exact .some (hfg _ _ h)

/-- Relations between options compose. -/
theorem rel_comp {R : β → γ → Prop} {c : Option γ} (h : Option.Rel P a b)
    (h' : Option.Rel R b c) : Option.Rel (fun x z ↦ ∃ y, P x y ∧ R y z) a c := by
  cases h with
  | none =>
    cases h' with
    | none => exact .none
  | some h =>
    cases h' with
    | some h' => exact .some ⟨_, h, h'⟩

/-- What comes after related values is related. -/
theorem rel_bind {α' β' : Type} {R : α' → β' → Prop} {f : α → Option α'} {g : β → Option β'}
    (h : Option.Rel P a b) (hf : ∀ x y, P x y → Option.Rel R (f x) (g y)) :
    Option.Rel R (a.bind f) (b.bind g) := by
  cases h with
  | none => exact .none
  | some h => exact hf _ _ h

/-- Options related by equality are equal. -/
theorem eq_of_rel {a a' : Option α} (h : Option.Rel Eq a a') : a = a' := by
  cases h with
  | none => rfl
  | some h => rw [h]

/-- Of two related options both have a value or neither has. -/
theorem isSome_eq_of_rel (h : Option.Rel P a b) : a.isSome = b.isSome := by
  cases h <;> rfl

/-- What is there on the left is related to what is there on the right. -/
theorem exists_right_of_rel (h : Option.Rel P a b) {x : α} (hx : a = some x) :
    ∃ y, b = some y ∧ P x y := by
  subst hx
  cases h with
  | some hP => exact ⟨_, rfl, hP⟩

/-- What is there on the right is related to what is there on the left. -/
theorem exists_left_of_rel (h : Option.Rel P a b) {y : β} (hy : b = some y) :
    ∃ x, a = some x ∧ P x y := by
  subst hy
  cases h with
  | some hP => exact ⟨_, rfl, hP⟩

/-- Values are related if each on one side is related to one on the other. -/
theorem rel_of_exists (hright : ∀ x, a = some x → ∃ y, b = some y ∧ P x y)
    (hleft : ∀ y, b = some y → ∃ x, a = some x) : Option.Rel P a b := by
  cases a with
  | none =>
    cases b with
    | none => exact .none
    | some y =>
      obtain ⟨x, hx⟩ := hleft y rfl
      cases hx
  | some x =>
    obtain ⟨y, rfl, hP⟩ := hright x rfl
    exact .some hP

/-! ### Lists -/

section

variable {as : List α} {bs : List β}

/-- Each item on the left is related to one on the right. -/
theorem exists_right_of_forall₂ (h : List.Forall₂ P as bs) {x : α} (hx : x ∈ as) :
    ∃ y ∈ bs, P x y := by
  induction h with
  | nil => cases hx
  | cons hP _ ih =>
    rcases List.mem_cons.mp hx with rfl | hx
    · exact ⟨_, List.mem_cons_self, hP⟩
    · obtain ⟨y, hy, hP⟩ := ih hx
      exact ⟨y, List.mem_cons_of_mem _ hy, hP⟩

/-- Each item on the right is related to one on the left. -/
theorem exists_left_of_forall₂ (h : List.Forall₂ P as bs) {y : β} (hy : y ∈ bs) :
    ∃ x ∈ as, P x y :=
  exists_right_of_forall₂ (P := fun y x ↦ P x y) h.flip hy

end

/-- The list on the right holds, in order, the value that each item on the left is related to, and
nothing for an item that is related to none. -/
inductive OneForEach (P : α → β → Prop) : List α → List β → Prop where
  | nil : OneForEach P [] []
  | none {x as bs} : (∀ y, ¬P x y) → OneForEach P as bs → OneForEach P (x :: as) bs
  | one {x y as bs} : (∀ z, P x z ↔ z = y) → OneForEach P as bs →
      OneForEach P (x :: as) (y :: bs)

namespace OneForEach

variable {as as' : List α} {bs bs' : List β}

/-- Related lists stay related when related lists are appended. -/
theorem append (h : OneForEach P as bs) (h' : OneForEach P as' bs') :
    OneForEach P (as ++ as') (bs ++ bs') := by
  induction h with
  | nil => exact h'
  | none hx _ ih => exact .none hx ih
  | one hx _ ih => exact .one hx ih

/-- Items that stand for others are related to what these are. -/
theorem map {f : γ → α} {cs : List γ} (h : OneForEach (fun c ↦ P (f c)) cs bs) :
    OneForEach P (cs.map f) bs := by
  induction h with
  | nil => exact .nil
  | none hx _ ih => exact .none hx ih
  | one hx _ ih => exact .one hx ih

/-- The values of a partial function, of which the relation is the graph on the items. -/
theorem filterMap_of_mem {f : α → Option β} (hf : ∀ x ∈ as, ∀ y, P x y ↔ f x = some y) :
    OneForEach P as (as.filterMap f) := by
  induction as with
  | nil => exact .nil
  | cons x rest ih =>
    obtain ⟨hfirst, hrest⟩ := List.forall_mem_cons.mp hf
    cases hx : f x with
    | none =>
      rw [List.filterMap_cons_none hx]
      exact .none (fun y hy ↦ by simp [(hfirst y).mp hy] at hx) (ih hrest)
    | some y =>
      rw [List.filterMap_cons_some hx]
      exact .one (fun z ↦ by rw [hfirst, hx, Option.some.injEq, eq_comm]) (ih hrest)

/-- The values of a partial function, of which the relation is the graph. -/
theorem filterMap {f : α → Option β} (hf : ∀ x y, P x y ↔ f x = some y) (as : List α) :
    OneForEach P as (as.filterMap f) :=
  filterMap_of_mem fun x _ ↦ hf x

/-- Items in another order have the same values, in the order of the items. -/
theorem perm (hperm : as.Perm as') (h : OneForEach P as bs) :
    ∃ bs', bs.Perm bs' ∧ OneForEach P as' bs' := by
  induction hperm generalizing bs with
  | nil => exact ⟨bs, .refl _, h⟩
  | cons x _ ih =>
    cases h with
    | none hx h =>
      obtain ⟨bs', hbs, h'⟩ := ih h
      exact ⟨bs', hbs, .none hx h'⟩
    | one hx h =>
      obtain ⟨bs', hbs, h'⟩ := ih h
      exact ⟨_, hbs.cons _, .one hx h'⟩
  | swap x x' l =>
    cases h with
    | none hx' h =>
      cases h with
      | none hx h => exact ⟨_, .refl _, .none hx (.none hx' h)⟩
      | one hx h => exact ⟨_, .refl _, .one hx (.none hx' h)⟩
    | one hx' h =>
      cases h with
      | none hx h => exact ⟨_, .refl _, .none hx (.one hx' h)⟩
      | one hx h => exact ⟨_, .swap _ _ _, .one hx (.one hx' h)⟩
  | trans _ _ ih ih' =>
    obtain ⟨bs₁, hbs₁, h₁⟩ := ih h
    obtain ⟨bs₂, hbs₂, h₂⟩ := ih' h₁
    exact ⟨bs₂, hbs₁.trans hbs₂, h₂⟩

end OneForEach

/-! ### Tables -/

/-- The tables have the same keys, and the values under each key are related. -/
def Table.Matches {κ : Type} [Ord κ] (P : κ → α → β → Prop) (t : Table κ α) (t' : Table κ β) :
    Prop :=
  List.Forall₂ (fun e e' ↦ e.1 = e'.1 ∧ P e.1 e.2 e'.2) t.entries t'.entries

section

variable {κ α β : Type} [Ord κ] [Std.TransOrd κ] [Std.LawfulEqOrd κ] {P : α → β → Prop}
  {t : Table κ α} {t' : Table κ β}

/-- Tables that are related key by key are equal when all values are replaced by one. -/
theorem map_const_eq_of_rel {γ : Type} (h : ∀ k, Option.Rel P (t.find? k) (t'.find? k))
    (c : γ) : t'.map (fun _ ↦ c) = t.map fun _ ↦ c := by
  apply Table.ext_find?
  intro k
  have hk := h k
  rw [Table.find?_map, Table.find?_map]
  generalize t.find? k = v, t'.find? k = v' at hk
  cases hk <;> rfl

/-- Tables that are related key by key have the same keys. -/
theorem keys_eq_of_rel (h : ∀ k, Option.Rel P (t.find? k) (t'.find? k)) : t'.keys = t.keys := by
  have hkeys := congrArg Table.keys (map_const_eq_of_rel h ())
  simpa [Table.keys, Table.map, Table.mapEntries, Function.comp_def] using hkeys

/-- Tables that are related key by key are related entry by entry. -/
theorem forall₂_entries_of_rel (h : ∀ k, Option.Rel P (t.find? k) (t'.find? k)) :
    List.Forall₂ (fun e e' ↦ e.1 = e'.1 ∧ P e.2 e'.2) t.entries t'.entries := by
  have related {l : List (κ × α)} {l' : List (κ × β)} (hkeys : l'.map Prod.fst = l.map Prod.fst)
      (hl : ∀ e ∈ l, e ∈ t.entries) (hl' : ∀ e ∈ l', e ∈ t'.entries) :
      List.Forall₂ (fun e e' ↦ e.1 = e'.1 ∧ P e.2 e'.2) l l' := by
    induction l generalizing l' with
    | nil =>
      rw [List.map_nil, List.map_eq_nil_iff] at hkeys
      subst hkeys
      exact .nil
    | cons e rest ih =>
      obtain ⟨e', rest', rfl, hkey, hrest⟩ := List.map_eq_cons_iff.mp hkeys
      obtain ⟨he, hl⟩ := List.forall_mem_cons.mp hl
      obtain ⟨he', hl'⟩ := List.forall_mem_cons.mp hl'
      have hvalues := h e.1
      rw [Table.find?_eq_some_iff.mpr he, ← hkey, Table.find?_eq_some_iff.mpr he'] at hvalues
      cases hvalues with
      | some hP => exact .cons ⟨hkey.symm, hP⟩ (ih hrest hl hl')
  exact related (keys_eq_of_rel h) (fun _ ↦ id) fun _ ↦ id

end

end PolicySchema
