import PolicySchema.Proofs.KeySet
import PolicySchema.Proofs.Resolve.Collected
import PolicySchema.Proofs.Resolve.Triple

/-!
# The types that a run gives stand

Whether or not problems are found, the types that a run gives refer to known entity types and
enabled extension types only, and no cycle is reported before the hierarchies are closed (`Steady`).
Each step keeps this (`Runs`), and gives what it found apart from what it reported.
-/

namespace PolicySchema

/-- What the atom refers to is there: a known entity type, or an enabled extension type. -/
def Atom.Stands (known : Name → Bool) (extensions : Extensions) : Atom → Prop
  | primitive _ => True
  | entity n => known n = true
  | extension id => extensions.isEnabled id.text = true

/-- What the type refers to is there. -/
def TypeExpr.Stands (known : Name → Bool) (extensions : Extensions) (t : TypeExpr Atom) : Prop :=
  ∀ a ∈ t.leaves, a.Stands known extensions

namespace Resolve

variable {α β : Type}

/-! ### Steps on the state -/

/-- What the type refers to is known or enabled. -/
abbrev Stands (index : Index) (extensions : Extensions) (t : ResolvedType) : Prop :=
  t.Stands index.known.contains extensions

/-- The types that are noted stand, and no problem is that of a cycle. -/
structure Steady (index : Index) (extensions : Extensions) (s : State) : Prop where
  settled : ∀ n t depth, s.common.find? n = some (.settled (some (t, depth))) →
    Stands index extensions t
  problems : ∀ p ∈ s.problems, p.cause.fault ≠ .cycle

/-- Steps that keep a state steady. From one that is not, they may do anything. -/
def steadily (index : Index) (extensions : Extensions) : Kind where
  given := True
  rel s s' := Steady index extensions s → Steady index extensions s'
  owes s _ := Steady index extensions s
  given_of_owes _ := trivial
  refl _ := id
  trans h h' := h' ∘ h
  owes_first _ _ := id
  owes_second h _ := h
  checked _ hs := ⟨hs.settled, hs.problems⟩

/-- The step keeps the state steady, and its result has the property. -/
abbrev Runs (index : Index) (extensions : Extensions) (x : Resolving α) (Q : α → Prop) : Prop :=
  (steadily index extensions).Triple x Q

variable {index : Index} {extensions : Extensions} {origin : Origin} {ns : Option Name}

/-- From a steady state, the step leads to one and gives a result with the property. -/
theorem runs_iff {x : Resolving α} {Q : α → Prop} : Runs index extensions x Q ↔
    ∀ s, Steady index extensions s → Steady index extensions (x.run s).2 ∧ Q (x.run s).1 :=
  ⟨fun h s hs ↦ ⟨(h s).rel hs, (h s).result hs⟩,
    fun h s ↦ ⟨fun hs ↦ (h s hs).1, fun hs ↦ (h s hs).2⟩⟩

/-- Nothing is asked of the second step unless the result of the first has the property. -/
theorem Runs.bind {x : Resolving α} {Q : α → Prop} {f : α → Resolving β} {R : β → Prop}
    (hx : Runs index extensions x Q) (hf : ∀ a, Q a → Runs index extensions (f a) R) :
    Runs index extensions (x >>= f) R := by
  rw [runs_iff] at hx ⊢
  intro s hs
  obtain ⟨hs', ha⟩ := hx s hs
  exact runs_iff.mp (hf _ ha) _ hs'

open Resolving

/-- A problem that is not that of a cycle may be reported. -/
theorem runs_report {cause : Cause} (location : Option Location)
    (h : cause.fault ≠ .cycle) : Runs index extensions (report cause location) fun _ ↦ True := by
  rw [runs_iff]
  refine fun s hs ↦ ⟨⟨hs.settled, ?_⟩, trivial⟩
  exact List.forall_mem_append.mpr ⟨hs.problems, List.forall_mem_singleton.mpr h⟩

private theorem runs_reject {cause : Cause} (h : cause.fault ≠ .cycle) :
    Runs index extensions (reject cause origin : Resolving (Option α)) (· = none) :=
  .reject (runs_report origin.location h) fun _ ↦ rfl

private theorem runs_reject_type {cause : Cause} (h : cause.fault ≠ .cycle) :
    Runs index extensions (reject cause origin) (∀ t ∈ ·, Stands index extensions t) :=
  .reject (runs_report origin.location h) fun _ ↦ nofun

private theorem Steady.note {s s' : State} (h : Steady index extensions s) {n : Name}
    {progress : Progress} (hcommon : s'.common = s.common.insert n progress)
    (hproblems : ∀ p ∈ s'.problems, p.cause.fault ≠ .cycle)
    (hprogress : ∀ t depth, progress = .settled (some (t, depth)) → Stands index extensions t) :
    Steady index extensions s' where
  settled m t depth hm := by
    rw [hcommon, Table.find?_insert] at hm
    split at hm
    · exact hprogress t depth (Option.some.inj hm)
    · exact h.settled m t depth hm
  problems := hproblems

private theorem runs_openLevel : Runs index extensions (openLevel origin) fun _ ↦ True := by
  rw [runs_iff]
  intro s hs
  obtain ⟨-, checks, -, hrun⟩ | ⟨-, hrun⟩ := run_openLevel_cases origin s
  · rw [hrun]
    have hreported :
        Steady index extensions (s.withProblem (.tooDeep origin.label) origin.location) :=
      (runs_report origin.location (by simp [Cause.fault]) s).rel hs
    exact ⟨⟨hreported.settled, hreported.problems⟩, trivial⟩
  · rw [hrun]
    exact ⟨⟨hs.settled, hs.problems⟩, trivial⟩

private theorem runs_closeLevel : Runs index extensions closeLevel fun _ ↦ True :=
  fun _ ↦ ⟨fun hs ↦ ⟨hs.settled, hs.problems⟩, fun _ ↦ trivial⟩

/-! ### Types -/

section

variable {leaf : TypeRef → Resolving (Option ResolvedType)}

mutual

private theorem runs_resolveWith
    (hleaf : ∀ r, Runs index extensions (leaf r) (∀ t ∈ ·, Stands index extensions t))
    (t : TypeExpr TypeRef) :
    Runs index extensions (resolveWith leaf origin t) (∀ t ∈ ·, Stands index extensions t) := by
  match t with
  | .leaf r => exact hleaf r
  | .set element =>
    apply runs_openLevel.bind
    intro opened _
    split
    · apply (runs_resolveWith hleaf element).bind
      intro result hresult
      apply runs_closeLevel.bind
      intro _ _
      apply Kind.Triple.pure
      rintro - _ h
      obtain ⟨t, ht, rfl⟩ := Option.map_eq_some_iff.mp h
      exact hresult t ht
    · exact .pure fun _ ↦ nofun
  | .record fields notes =>
    apply runs_openLevel.bind
    intro opened _
    split
    · apply (runs_resolveFieldsWith hleaf fields).bind
      intro result hresult
      apply runs_closeLevel.bind
      intro _ _
      apply Kind.Triple.pure
      rintro - _ h
      obtain ⟨fields, hfields, rfl⟩ := Option.map_eq_some_iff.mp h
      exact hresult fields hfields
    · exact .pure fun _ ↦ nofun

private theorem runs_resolveFieldsWith
    (hleaf : ∀ r, Runs index extensions (leaf r) (∀ t ∈ ·, Stands index extensions t))
    (fields : Fields TypeRef) :
    Runs index extensions (resolveFieldsWith leaf origin fields)
      (∀ fields ∈ ·, ∀ a ∈ fields.leaves, a.Stands index.known.contains extensions) := by
  match fields with
  | .nil =>
    apply Kind.Triple.pure
    rintro - _ ⟨⟩
    exact nofun
  | .cons key t required notes rest =>
    apply (runs_resolveWith hleaf t).bind
    intro result hresult
    apply (runs_resolveFieldsWith hleaf rest).bind
    intro result' hresult'
    split
    · apply Kind.Triple.pure
      rintro - _ ⟨⟩ a ha
      rcases List.mem_append.mp ha with ha | ha
      · exact hresult _ rfl a ha
      · exact hresult' _ rfl a ha
    · exact .pure fun _ ↦ nofun

end

end

/-! ### References -/

private theorem stands_leaf {a : Atom} (h : a.Stands index.known.contains extensions) :
    Stands index extensions (.leaf a) := by
  intro b hb
  obtain rfl := List.mem_singleton.mp hb
  exact h

/-- An entity type is found if it is known. -/
theorem runs_requireEntity (n : Name) :
    Runs index extensions (requireEntity index origin n) fun found ↦
      found = if index.known.contains n then some n else none := by
  unfold requireEntity
  split
  · exact .pure fun _ ↦ rfl
  · exact runs_reject (by simp [Cause.fault])

private theorem runs_entityAtom (n : Name) :
    Runs index extensions (entityAtom index origin n) (∀ t ∈ ·, Stands index extensions t) := by
  apply (runs_requireEntity n).bind
  rintro _ rfl
  apply Kind.Triple.pure
  rintro - _ h
  obtain ⟨m, hm, rfl⟩ := Option.map_eq_some_iff.mp h
  split at hm
  · next hn =>
    cases hm
    exact stands_leaf hn
  · cases hm

private theorem runs_extensionAtom (id : Identifier) :
    Runs index extensions (extensionAtom extensions origin id)
      (∀ t ∈ ·, Stands index extensions t) := by
  unfold extensionAtom
  split
  · exact runs_reject_type (by simp [Cause.fault])
  · split
    · exact runs_reject_type (by simp [Cause.fault])
    · next henabled =>
      apply Kind.Triple.pure
      rintro - _ ⟨⟩
      have hid : extensions.isEnabled id.text = true := by simpa using henabled
      exact stands_leaf hid

private theorem stands_of_target {r : TypeRef} {a : Atom} (h : index.target ns r = .atom a) :
    a.Stands index.known.contains extensions := by
  obtain ⟨p, rfl⟩ | ⟨n, rfl, hn⟩ := Index.atom_of_target h
  · trivial
  · exact hn

private theorem runs_resolveRef {inner : Inliner}
    (hinner : ∀ n, Runs index extensions (inner origin n) (∀ t ∈ ·, Stands index extensions t))
    (r : TypeRef) :
    Runs index extensions (resolveRef index extensions inner ns origin r)
      (∀ t ∈ ·, Stands index extensions t) := by
  unfold resolveRef
  split
  · next a ha =>
    apply Kind.Triple.pure
    rintro - _ ⟨⟩
    exact stands_leaf (stands_of_target ha)
  · exact hinner _
  · exact runs_entityAtom _
  · exact runs_extensionAtom _
  · exact runs_reject_type (by simp [Cause.fault])

/-! ### Common types -/

private theorem runs_placeInside {outcome : Option (ResolvedType × Nat)}
    (h : ∀ t depth, outcome = some (t, depth) → Stands index extensions t) :
    Runs index extensions (placeInside origin outcome) (∀ t ∈ ·, Stands index extensions t) := by
  unfold placeInside
  split
  · exact .pure fun _ ↦ nofun
  · next t depth =>
    apply Kind.Triple.get_bind
    intro s
    refine (Kind.Triple.withinDepth (runs_report _ (by simp [Cause.fault])) s).bind fun ok ↦ ?_
    split
    · apply Kind.Triple.pure
      rintro - - _ ⟨⟩
      exact h t depth rfl
    · exact .pure fun _ _ ↦ nofun

private theorem runs_walkBody {inner : Inliner}
    (hinner : ∀ origin n, Runs index extensions (inner origin n)
      (∀ t ∈ ·, Stands index extensions t)) (n : Name) (d : Placed (TypeExpr TypeRef)) :
    Runs index extensions (walkBody index extensions inner n d) fun outcome ↦
      ∀ t depth, outcome = some (t, depth) → Stands index extensions t := by
  rw [runs_iff]
  intro s hs
  have hopened : Steady index extensions (s.opened n) := hs.note rfl hs.problems nofun
  obtain ⟨-, hrun⟩ | hrun := run_walkBody_cases index extensions inner n d s
  · rw [hrun]
    have hnone : ∀ t depth, Progress.settled none = .settled (some (t, depth)) →
        Stands index extensions t := nofun
    refine ⟨hopened.note rfl ?_ hnone, nofun⟩
    exact ((runs_report d.declaration.location (by simp [Cause.fault]) s).rel hs).problems
  · rw [hrun]
    obtain ⟨hwalked, hresult⟩ := runs_iff.mp
      (runs_resolveWith (runs_resolveRef (hinner _)) d.declaration.body) _ hopened
    have houtcome (t : ResolvedType) (depth : Nat)
        (h : withDepth ((resolveBody index extensions inner n d).run (s.opened n)).1 =
          some (t, depth)) : Stands index extensions t := by
      obtain ⟨u, hu, heq⟩ := Option.map_eq_some_iff.mp h
      obtain ⟨rfl, -⟩ := Prod.mk.inj heq
      exact hresult u hu
    exact ⟨hwalked.note rfl hwalked.problems fun t depth h ↦
      houtcome t depth (Progress.settled.inj h), houtcome⟩

private theorem runs_inlineUpTo_of_walkBody {steps : Nat} {n : Name}
    (hwalk : ∀ rest d, steps = rest + 1 → Runs index extensions
      (walkBody index extensions (inlineUpTo index extensions rest) n d) fun outcome ↦
        ∀ t depth, outcome = some (t, depth) → Stands index extensions t) :
    Runs index extensions (inlineUpTo index extensions steps origin n)
      (∀ t ∈ ·, Stands index extensions t) := by
  unfold inlineUpTo
  rw [runs_iff]
  intro s hs
  rw [run_get_bind]
  suffices h : Runs index extensions _ (∀ t ∈ ·, Stands index extensions t) from
    runs_iff.mp h s hs
  split
  · exact .pure fun _ ↦ nofun
  · exact runs_entityAtom n
  · next outcome hn => exact runs_placeInside fun t depth h ↦ hs.settled n t depth (h ▸ hn)
  · split
    · next rest d _ => exact (hwalk rest d rfl).bind fun outcome h ↦ runs_placeInside h
    · exact .pure fun _ ↦ nofun

private theorem runs_inlineUpTo (steps : Nat) (origin : Origin) (n : Name) :
    Runs index extensions (inlineUpTo index extensions steps origin n)
      (∀ t ∈ ·, Stands index extensions t) := by
  induction steps generalizing origin n with
  | zero => exact runs_inlineUpTo_of_walkBody nofun
  | succ steps ih =>
    apply runs_inlineUpTo_of_walkBody
    rintro rest d ⟨⟩
    exact runs_walkBody ih n d

/-- A type that a declaration holds is resolved to one that stands. -/
theorem runs_resolveType (t : TypeExpr TypeRef) :
    Runs index extensions (resolveType index extensions ns origin t)
      (∀ t ∈ ·, Stands index extensions t) :=
  runs_resolveWith (runs_resolveRef (runs_inlineUpTo _ _)) t

/-- Walking common types keeps the state steady. -/
theorem runs_resolveCommonTypes (names : List Name) :
    Runs index extensions (resolveCommonTypes index extensions names) fun _ ↦ True := by
  induction names with
  | nil => exact .pure fun _ ↦ trivial
  | cons n rest ih => exact (runs_inlineUpTo _ _ n).bind fun _ _ ↦ ih

end Resolve

end PolicySchema
