import PolicySchema.Proofs.Resolve.Steps

/-!
# What steps of a kind keep

A kind of step relates the state after a step to the state before it, and says between which states
a step owes its result a property (`Kind`). A triple says that a step is of the kind and pays what
it owes. What steps keep carries over to steps that are put together from them, so the rules are the
same for all kinds.

What is said of the problems of a step adds up when steps are put together (`Reports`), and so do
the conditions under which steps pass (`Passes`). These are no kinds, and have rules of their own.
-/

namespace PolicySchema.Resolve

open Resolving

variable {α β : Type}

/-- A relation between the state before a step and the state after it, with the runs after which the
result has the property that it should have. Both carry over to a step that is run after another
one. Checking the stack makes no difference. -/
structure Kind where
  /-- What may be relied on wherever a property is owed. -/
  given : Prop
  rel : State → State → Prop
  owes : State → State → Prop
  given_of_owes : ∀ {s s'}, owes s s' → given
  refl : ∀ s, rel s s
  trans : ∀ {s s' s''}, rel s s' → rel s' s'' → rel s s''
  owes_first : ∀ {s s' s''}, rel s s' → rel s' s'' → owes s s'' → owes s s'
  owes_second : ∀ {s s' s''}, rel s s' → rel s' s'' → owes s s'' → owes s' s''
  checked : ∀ s, rel s s.checked

namespace Kind

/-- The run of the step from the state `s` is of the kind, and where a property is owed its result
has the property `Q`. -/
structure TripleAt (K : Kind) (s : State) (x : Resolving α) (Q : α → Prop) : Prop where
  rel : K.rel s (x.run s).2
  result : K.owes s (x.run s).2 → Q (x.run s).1

/-- Every run of the step is of the kind, and its result has the property where one is owed. -/
def Triple (K : Kind) (x : Resolving α) (Q : α → Prop) : Prop := ∀ s, K.TripleAt s x Q

variable {K : Kind} {s : State}

namespace TripleAt

variable {x : Resolving α} {Q R : α → Prop}

/-- A weaker property is owed as well. -/
theorem imp (h : K.TripleAt s x Q) (hQ : K.owes s (x.run s).2 → ∀ a, Q a → R a) :
    K.TripleAt s x R :=
  ⟨h.rel, fun howes ↦ hQ howes _ (h.result howes)⟩

/-- A step that only gives a result leaves the state as it is. -/
theorem pure {a : α} (h : K.owes s s → Q a) : K.TripleAt s (Pure.pure a : Resolving α) Q :=
  ⟨K.refl s, h⟩

/-- The second step runs in the state that the first leads to. -/
theorem bind {f : α → Resolving β} {S : β → Prop} (hx : K.TripleAt s x Q)
    (hf : ∀ a, K.Triple (f a) fun b ↦ Q a → S b) : K.TripleAt s (x >>= f) S := by
  obtain ⟨hrel, hresult⟩ := hx
  obtain ⟨hrel', hresult'⟩ := hf (x.run s).1 (x.run s).2
  refine ⟨K.trans hrel hrel', fun howes ↦ ?_⟩
  exact hresult' (K.owes_second hrel hrel' howes) (hresult (K.owes_first hrel hrel' howes))

end TripleAt

namespace Triple

variable {x : Resolving α} {Q R : α → Prop}

/-- A weaker property is owed as well. -/
theorem imp (h : K.Triple x Q) (hQ : K.given → ∀ a, Q a → R a) : K.Triple x R :=
  fun s ↦ (h s).imp fun howes ↦ hQ (K.given_of_owes howes)

/-- A step that only gives a result has to give the right one. -/
theorem pure {a : α} (h : K.given → Q a) : K.Triple (Pure.pure a : Resolving α) Q :=
  fun _ ↦ .pure fun howes ↦ h (K.given_of_owes howes)

/-- The second step may rely on the result of the first. -/
theorem bind {f : α → Resolving β} {S : β → Prop} (hx : K.Triple x Q)
    (hf : ∀ a, K.Triple (f a) fun b ↦ Q a → S b) : K.Triple (x >>= f) S :=
  fun s ↦ (hx s).bind hf

/-- A step that reads the state goes on from this state. -/
theorem get_bind {f : State → Resolving β} {S : β → Prop} (h : ∀ s, K.TripleAt s (f s) S) :
    K.Triple (get >>= f) S :=
  fun s ↦ ⟨(h s).rel, (h s).result⟩

/-- A rejected step owes what reporting its problem does. -/
theorem reject {cause : Cause} {origin : Origin} {P : Prop} {Q : Option α → Prop}
    (h : K.Triple (report cause origin.location) fun _ ↦ P) (hQ : P → Q none) :
    K.Triple (Resolving.reject cause origin) Q :=
  h.bind fun _ ↦ .pure fun _ ↦ hQ

/-- If the stack is found exhausted, then what reporting this owes is owed. -/
theorem withinStack {cause : Cause} {location : Option Location} {P : Prop}
    (h : K.Triple (report cause location) fun _ ↦ P) :
    K.Triple (Resolving.withinStack cause location) fun ok ↦ ok = false → P := by
  intro s
  obtain ⟨-, hrun⟩ | hrun := run_withinStack_cases cause location s
  · obtain ⟨hrel, hresult⟩ := h s.checked
    constructor <;> rw [hrun]
    · exact K.trans (K.checked s) hrel
    · exact fun howes _ ↦ hresult (K.owes_second (K.checked s) hrel howes)
  · constructor <;> rw [hrun]
    · exact K.checked s
    · exact fun _ ↦ nofun

/-- If sets and records may not nest as deep as this, then what reporting this owes is owed. -/
theorem withinDepth {origin : Origin} {depth : Nat} {P : Prop}
    (h : K.Triple (report (.tooDeep origin.label) origin.location) fun _ ↦ P) :
    K.Triple (Resolving.withinDepth origin depth) fun ok ↦
      (ok = false → P) ∧ (ok = true → depth ≤ TypeExpr.maxDepth) := by
  unfold Resolving.withinDepth
  split
  · exact h.bind fun _ ↦ .pure fun _ hP ↦ ⟨fun _ ↦ hP, nofun⟩
  · next hdepth => exact (withinStack h).imp fun _ _ hP ↦ ⟨hP, fun _ ↦ Nat.not_lt.mp hdepth⟩

/-! ### Declarations -/

section

variable {index : Index} {ns : Option Name} {origin : Origin}

/-- Parents of an entity type are resolved by a step of the kind if reporting the unknown ones is.
-/
theorem resolveParents {name : Name} {location : Option Location} {parents : List Name}
    (hreport : ∀ parent, K.Triple (report (.unknownEntityParent name parent) location)
      fun _ ↦ True) :
    K.Triple (Resolve.resolveParents index name ns location parents) fun _ ↦ True := by
  induction parents with
  | nil => exact .pure fun _ ↦ trivial
  | cons n rest ih =>
    unfold Resolve.resolveParents
    dsimp only
    split
    · exact ih.bind fun _ ↦ .pure fun _ _ ↦ trivial
    · exact (hreport _).bind fun _ ↦ ih.imp fun _ _ _ _ ↦ trivial

/-- So are the parents of an action. -/
theorem resolveActionParents {uid : Uid} {location : Option Location} {parents : List ActionRef}
    (hreport : ∀ parent, K.Triple (report (.unknownActionParent uid parent) location)
      fun _ ↦ True) :
    K.Triple (Resolve.resolveActionParents index uid ns location parents) fun _ ↦ True := by
  induction parents with
  | nil => exact .pure fun _ ↦ trivial
  | cons r rest ih =>
    unfold Resolve.resolveActionParents
    dsimp only
    split
    · exact ih.bind fun _ ↦ .pure fun _ _ ↦ trivial
    · exact (hreport _).bind fun _ ↦ ih.imp fun _ _ _ _ ↦ trivial

/-- So are the entity types that an action applies to. -/
theorem resolveNames {names : List Name}
    (hentity : ∀ n, K.Triple (requireEntity index origin n) fun _ ↦ True) :
    K.Triple (Resolve.resolveNames index ns origin names) fun _ ↦ True := by
  induction names with
  | nil => exact .pure fun _ ↦ trivial
  | cons n rest ih => exact (hentity _).bind fun _ ↦ ih.bind fun _ ↦ .pure fun _ _ _ ↦ trivial

/-- Closing the hierarchies is a step of the kind if reporting their cycles is. -/
theorem closeHierarchies {entityTypes : Table Name ResolvedEntityType}
    {actions : Table Uid ResolvedAction}
    (hentity : ∀ names location, K.Triple (report (.entityTypeCycle names) location) fun _ ↦ True)
    (haction : ∀ uids location, K.Triple (report (.actionCycle uids) location) fun _ ↦ True) :
    K.Triple (Resolve.closeHierarchies index entityTypes actions) fun _ ↦ True := by
  have hentities (names : List Name) : K.Triple (reportEntityCycle index names) fun _ ↦ True := by
    cases names with
    | nil => exact .pure fun _ ↦ trivial
    | cons => exact hentity _ _
  have hactions (uids : List Uid) : K.Triple (reportActionCycle index uids) fun _ ↦ True := by
    cases uids with
    | nil => exact .pure fun _ ↦ trivial
    | cons => exact haction _ _
  exact (hentities _).bind fun _ ↦ (hactions _).bind fun _ ↦ .pure fun _ _ _ ↦ trivial

end

end Triple

end Kind

end PolicySchema.Resolve
