import PolicySchema.Proofs.Nesting
import PolicySchema.Proofs.Resolve.Meaning
import PolicySchema.Proofs.Resolve.Running
import PolicySchema.Proofs.Resolve.Standing

/-!
# What every step leaves alone

Whether or not it finds problems, a step leaves as many sets and records open as there were, and
keeps the problems that were found before it. No problem that it adds is about a repeated
declaration. As long as the depths that are noted are right, no type that it gives nests deeper than
is allowed inside the sets and records that are open (`Framed`). So nothing in a resolved schema
does (`framed_resolveIndex`).
-/

namespace PolicySchema.Resolve

open Resolving

variable {α β : Type}

/-! ### Steps -/

/-- The problems are those from before and others that are not about repeated declarations. -/
def OnlyAdds (before after : List Problem) : Prop :=
  ∃ more, after = before ++ more ∧ ∀ p ∈ more, p.cause.repeated? = none

namespace OnlyAdds

variable {ps qs rs : List Problem}

/-- No problem is added to the same list. -/
theorem refl (ps : List Problem) : OnlyAdds ps ps := ⟨[], (List.append_nil ps).symm, nofun⟩

/-- What is added twice is added. -/
theorem trans (h : OnlyAdds ps qs) (h' : OnlyAdds qs rs) : OnlyAdds ps rs := by
  obtain ⟨more, rfl, hmore⟩ := h
  obtain ⟨more', rfl, hmore'⟩ := h'
  exact ⟨more ++ more', List.append_assoc .., List.forall_mem_append.mpr ⟨hmore, hmore'⟩⟩

/-- The problems from before are still there. -/
theorem subset (h : OnlyAdds ps qs) : ps ⊆ qs := by
  obtain ⟨more, rfl, -⟩ := h
  exact List.subset_append_left ps more

end OnlyAdds

/-- No more sets and records are open than may be, and each type is noted with its own depth. -/
structure Measured (s : State) : Prop where
  depth : s.depth ≤ TypeExpr.maxDepth
  settled : ∀ n t depth, s.common.find? n = some (.settled (some (t, depth))) → depth = t.depth

/-- As many sets and records are open as before, problems were only added, and if what was noted was
right then it still is. -/
structure State.Frames (s s' : State) : Prop where
  depth : s'.depth = s.depth
  problems : OnlyAdds s.problems s'.problems
  measured : Measured s → Measured s'

/-- Steps that leave alone what they should. A property is owed to their results where what is noted
is right, and `level` sets and records are open. -/
def framing (level : Nat) : Kind where
  given := level ≤ TypeExpr.maxDepth
  rel := State.Frames
  owes s _ := Measured s ∧ s.depth = level
  given_of_owes := fun ⟨hs, hlevel⟩ ↦ hlevel ▸ hs.depth
  refl _ := ⟨rfl, .refl _, id⟩
  trans h h' := ⟨h'.depth.trans h.depth, h.problems.trans h'.problems, h'.measured ∘ h.measured⟩
  owes_first _ _ := id
  owes_second h _ := fun ⟨hs, hlevel⟩ ↦ ⟨h.measured hs, h.depth.trans hlevel⟩
  checked _ := ⟨rfl, .refl _, fun hs ↦ ⟨hs.depth, hs.settled⟩⟩

/-- The step leaves alone what it should, and its result has the property inside `level` sets and
records. -/
abbrev Framed (level : Nat) (x : Resolving α) (Q : α → Prop) : Prop := (framing level).Triple x Q

/-- The type, if there is one, nests no deeper than is allowed inside `level` sets and records. -/
def Within (level : Nat) (result : Option ResolvedType) : Prop :=
  ∀ t ∈ result, level + t.depth ≤ TypeExpr.maxDepth

variable {level : Nat}

/-! ### Problems -/

/-- A problem that is not about a repeated declaration may be reported. -/
theorem framed_report {cause : Cause} (location : Option Location)
    (h : cause.repeated? = none) : Framed level (report cause location) fun _ ↦ True := fun _ ↦
  ⟨⟨rfl, ⟨_, rfl, List.forall_mem_singleton.mpr h⟩, fun hs ↦ ⟨hs.depth, hs.settled⟩⟩,
    fun _ ↦ trivial⟩

private theorem framed_reject {cause : Cause} {origin : Origin} (h : cause.repeated? = none) :
    Framed level (reject cause origin : Resolving (Option α)) (· = none) :=
  .reject (framed_report origin.location h) fun _ ↦ rfl

private theorem within_none : Within level none := nofun

private theorem within_leaf (h : level ≤ TypeExpr.maxDepth) (a : Atom) :
    Within level (some (.leaf a)) := by
  rintro _ ⟨⟩
  exact h

private theorem framed_reject_type {cause : Cause} {origin : Origin} (h : cause.repeated? = none) :
    Framed level (reject cause origin) (Within level) := by
  apply (framed_reject h).imp
  rintro - _ rfl
  exact within_none

private theorem State.Frames.withProblem {s : State} (checks : StackChecks) {cause : Cause}
    {location : Option Location} (h : cause.repeated? = none) :
    s.Frames { s.withProblem cause location with checks } where
  depth := rfl
  problems := ⟨_, rfl, List.forall_mem_singleton.mpr h⟩
  measured hs := ⟨hs.depth, hs.settled⟩

/-! ### Sets and records -/

section

variable {origin : Origin}

private theorem framed_inside {y : Resolving (Option β)} {make : β → ResolvedType} {size : β → Nat}
    (hmake : ∀ b, (make b).depth = size b + 1)
    (hy : ∀ level, Framed level y fun result ↦
      ∀ b ∈ result, level + size b ≤ TypeExpr.maxDepth) :
    Framed level (do
      if ← openLevel origin then
        let b ← y
        closeLevel
        pure (b.map make)
      else pure none) (Within level) := by
  intro s
  obtain ⟨-, checks, -, hopen⟩ | ⟨hdepth, hopen⟩ := run_openLevel_cases origin s
  · constructor <;> rw [run_bind, hopen]
    · exact .withProblem checks rfl
    · exact fun _ ↦ within_none
  · obtain ⟨⟨hsame, hproblems, hmeasured⟩, hresult⟩ :=
      hy (s.depth + 1) { s.checked with depth := s.depth + 1 }
    constructor <;> rw [run_bind, hopen]
    · refine ⟨congrArg (· - 1) hsame, hproblems, fun hs ↦ ?_⟩
      have hinside := hmeasured ⟨hdepth, hs.settled⟩
      exact ⟨Nat.le_trans (Nat.sub_le _ 1) hinside.depth, hinside.settled⟩
    · rintro ⟨hs, rfl⟩ t ht
      obtain ⟨b, hb, rfl⟩ := Option.map_eq_some_iff.mp ht
      have hsize := hresult ⟨⟨hdepth, hs.settled⟩, rfl⟩ b hb
      rw [hmake]
      omega

variable {leaf : TypeRef → Resolving (Option ResolvedType)}

mutual

/-- A type is resolved inside the open sets and records if its leaves are. -/
theorem framed_resolveWith (hleaf : ∀ level r, Framed level (leaf r) (Within level))
    (level : Nat) (t : TypeExpr TypeRef) :
    Framed level (resolveWith leaf origin t) (Within level) := by
  match t with
  | .leaf r => exact hleaf level r
  | .set element =>
    exact framed_inside (fun _ ↦ rfl) fun level ↦ framed_resolveWith hleaf level element
  | .record fields notes =>
    exact framed_inside (fun _ ↦ rfl) fun level ↦ framed_resolveFieldsWith hleaf level fields

/-- So are the attributes of a record. -/
theorem framed_resolveFieldsWith (hleaf : ∀ level r, Framed level (leaf r) (Within level))
    (level : Nat) (fields : Fields TypeRef) :
    Framed level (resolveFieldsWith leaf origin fields) fun result ↦
      ∀ f ∈ result, level + f.depth ≤ TypeExpr.maxDepth := by
  match fields with
  | .nil =>
    apply Kind.Triple.pure
    rintro hlevel _ ⟨⟩
    exact hlevel
  | .cons key t required notes rest =>
    apply (framed_resolveWith hleaf level t).bind
    intro result
    apply (framed_resolveFieldsWith hleaf level rest).bind
    intro result'
    split
    · apply Kind.Triple.pure
      rintro - hrest ht _ ⟨⟩
      have hfirst := ht _ rfl
      have hothers := hrest _ rfl
      rw [Fields.depth]
      omega
    · exact .pure fun _ _ _ ↦ nofun

end

end

/-! ### References -/

variable {index : Index} {extensions : Extensions} {origin : Origin} {ns : Option Name}

private theorem framed_requireEntity (n : Name) :
    Framed level (requireEntity index origin n) fun _ ↦ True := by
  unfold requireEntity
  split
  · exact .pure fun _ ↦ trivial
  · exact (framed_reject rfl).imp fun _ _ _ ↦ trivial

private theorem framed_entityAtom (n : Name) :
    Framed level (entityAtom index origin n) (Within level) := by
  apply (framed_requireEntity n).bind
  intro found
  apply Kind.Triple.pure
  intro hlevel _
  cases found with
  | none => exact within_none
  | some m => exact within_leaf hlevel _

private theorem framed_extensionAtom (id : Identifier) :
    Framed level (extensionAtom extensions origin id) (Within level) := by
  unfold extensionAtom
  split
  · exact framed_reject_type rfl
  · split
    · exact framed_reject_type rfl
    · exact .pure fun hlevel ↦ within_leaf hlevel _

/-- A reference is resolved inside the open sets and records if common types are inlined so. -/
theorem framed_resolveRef {inner : Inliner}
    (hinner : ∀ level n, Framed level (inner origin n) (Within level)) (level : Nat)
    (r : TypeRef) :
    Framed level (resolveRef index extensions inner ns origin r) (Within level) := by
  unfold resolveRef
  split
  · exact .pure fun hlevel ↦ within_leaf hlevel _
  · exact hinner level _
  · exact framed_entityAtom _
  · exact framed_extensionAtom _
  · exact framed_reject_type rfl

/-! ### Common types -/

private theorem framed_placeInside {outcome : Option (ResolvedType × Nat)} :
    Framed level (placeInside origin outcome) fun result ↦
      (∀ t depth, outcome = some (t, depth) → depth = t.depth) → Within level result := by
  intro s
  match outcome with
  | none => exact .pure fun _ _ ↦ within_none
  | some (t, depth) =>
    obtain ⟨-, checks, -, hrun⟩ | ⟨hfits, hrun⟩ := run_placeInside_cases origin t depth s
    · constructor <;> rw [hrun]
      · exact .withProblem checks rfl
      · exact fun _ _ ↦ within_none
    · constructor <;> rw [hrun]
      · exact (framing level).checked s
      · rintro ⟨-, rfl⟩ houtcome _ ⟨⟩
        rwa [← houtcome t depth rfl]

private theorem Measured.note {s s' : State} (h : Measured s) {n : Name} {progress : Progress}
    (hs' : s'.common = s.common.insert n progress) (hdepth : s'.depth ≤ TypeExpr.maxDepth)
    (hprogress : ∀ t depth, progress = .settled (some (t, depth)) → depth = t.depth) :
    Measured s' := by
  refine ⟨hdepth, fun m t depth hm ↦ ?_⟩
  rw [hs', Table.find?_insert] at hm
  split at hm
  · exact hprogress t depth (Option.some.inj hm)
  · exact h.settled m t depth hm

/-- The type of an outcome is noted with its depth. -/
theorem depth_eq_of_withDepth {result : Option ResolvedType} {t : ResolvedType} {depth : Nat}
    (h : withDepth result = some (t, depth)) : result = some t ∧ depth = t.depth := by
  obtain ⟨u, hu, heq⟩ := Option.map_eq_some_iff.mp h
  obtain ⟨rfl, rfl⟩ := Prod.mk.inj heq
  exact ⟨hu, u.nestingDepth_eq_depth⟩

-- The body of a common type is walked with no set or record open, and what was open is open again
-- after it.
private theorem framed_walkBody {inner : Inliner}
    (hinner : ∀ origin level n, Framed level (inner origin n) (Within level)) (n : Name)
    (d : Placed (TypeExpr TypeRef)) :
    Framed level (walkBody index extensions inner n d) fun outcome ↦
      ∀ t depth, outcome = some (t, depth) → depth = t.depth := by
  intro s
  have hopened (hs : Measured s) : Measured (s.opened n) := hs.note rfl (Nat.zero_le _) nofun
  obtain ⟨-, hrun⟩ | hrun := run_walkBody_cases index extensions inner n d s
  · constructor <;> rw [hrun]
    · have hnone : ∀ t depth, Progress.settled none = .settled (some (t, depth)) →
          depth = t.depth := nofun
      refine ⟨rfl, ⟨_, rfl, List.forall_mem_singleton.mpr rfl⟩, fun hs ↦ ?_⟩
      exact (hopened hs).note rfl hs.depth hnone
    · exact fun _ ↦ nofun
  · obtain ⟨hframes, -⟩ : (framing 0).TripleAt (s.opened n) (resolveBody index extensions inner n d)
        (Within 0) :=
      framed_resolveWith (framed_resolveRef (hinner _)) 0 d.declaration.body _
    constructor <;> rw [hrun]
    · refine ⟨rfl, hframes.problems, fun hs ↦ ?_⟩
      exact (hframes.measured (hopened hs)).note rfl hs.depth fun t depth h ↦
        (depth_eq_of_withDepth (Progress.settled.inj h)).2
    · exact fun _ t depth h ↦ (depth_eq_of_withDepth h).2

private theorem framed_inlineUpTo_of_walkBody {steps : Nat} {n : Name}
    (hwalk : ∀ rest d, steps = rest + 1 →
      Framed level (walkBody index extensions (inlineUpTo index extensions rest) n d) fun outcome ↦
        ∀ t depth, outcome = some (t, depth) → depth = t.depth) :
    Framed level (inlineUpTo index extensions steps origin n) (Within level) := by
  unfold inlineUpTo
  apply Kind.Triple.get_bind
  intro s
  split
  · exact .pure fun _ ↦ within_none
  · exact framed_entityAtom n s
  · next outcome hn =>
    apply (framed_placeInside s).imp
    rintro ⟨hs, -⟩ _ h
    apply h
    rintro t depth rfl
    exact hs.settled n t depth hn
  · split
    · next rest d _ => exact (hwalk rest d rfl s).bind fun _ ↦ framed_placeInside
    · exact .pure fun _ ↦ within_none

/-- A common type is inlined where it fits. -/
theorem framed_inlineUpTo (steps : Nat) (origin : Origin) (level : Nat) (n : Name) :
    Framed level (inlineUpTo index extensions steps origin n) (Within level) := by
  induction steps generalizing origin level n with
  | zero => exact framed_inlineUpTo_of_walkBody nofun
  | succ steps ih =>
    apply framed_inlineUpTo_of_walkBody
    rintro rest d ⟨⟩
    exact framed_walkBody ih n d

/-- A type that a declaration holds is resolved inside the open sets and records. -/
theorem framed_resolveType (t : TypeExpr TypeRef) :
    Framed level (resolveType index extensions ns origin t) (Within level) :=
  framed_resolveWith (framed_resolveRef (framed_inlineUpTo _ _)) level t

/-- Walking common types leaves alone what it should. -/
theorem framed_resolveCommonTypes (names : List Name) :
    Framed level (resolveCommonTypes index extensions names) fun _ ↦ True := by
  induction names with
  | nil => exact .pure fun _ ↦ trivial
  | cons n rest ih => exact (framed_inlineUpTo _ _ _ n).bind fun _ ↦ ih.imp fun _ _ _ _ ↦ trivial

/-! ### Entity types and actions -/

private theorem framed_resolveOptionalType (t : Option (TypeExpr TypeRef)) :
    Framed level (resolveOptionalType index extensions ns origin t) (Within level) := by
  cases t with
  | none => exact .pure fun _ ↦ within_none
  | some t => exact framed_resolveType t

private theorem Within.depth_le {result : Option ResolvedType}
    (h : Within level result) {t : ResolvedType} (ht : t ∈ result) :
    t.depth ≤ TypeExpr.maxDepth :=
  Nat.le_trans (Nat.le_add_left _ _) (h t ht)

private theorem depth_empty_le :
    (RecordType.empty : ResolvedRecord).toType.depth ≤ TypeExpr.maxDepth := by decide

private theorem Within.record_depth_le {result : Option ResolvedType} (h : Within level result) :
    ((result.bind TypeExpr.record?).getD .empty).toType.depth ≤ TypeExpr.maxDepth := by
  cases hrecord : result.bind TypeExpr.record? with
  | none => exact depth_empty_le
  | some r =>
    obtain ⟨t, ht, hr⟩ := Option.bind_eq_some_iff.mp hrecord
    cases t <;> cases hr
    exact h.depth_le ht

-- The types of the entity type nest no deeper than is allowed.
private structure ShallowEntity (e : ResolvedEntityType) : Prop where
  attributes : e.attributes.toType.depth ≤ TypeExpr.maxDepth
  tags : ∀ t ∈ e.tags, t.depth ≤ TypeExpr.maxDepth

private def ShallowAction (a : ResolvedAction) : Prop :=
  ∀ applies ∈ a.appliesTo, applies.context.toType.depth ≤ TypeExpr.maxDepth

private theorem framed_resolveEntityType (name : Name) (d : Placed EntityType) :
    Framed level (resolveEntityType index extensions name d) ShallowEntity := by
  unfold resolveEntityType
  dsimp only
  split
  · apply (Kind.Triple.resolveParents fun _ ↦ framed_report _ rfl).bind
    intro parents
    apply (framed_resolveOptionalType _).bind
    intro shape
    apply (framed_resolveOptionalType _).bind
    intro tags
    apply Kind.Triple.pure
    intro _ htags hshape _
    exact ⟨hshape.record_depth_le, fun t ht ↦ htags.depth_le ht⟩
  · exact .pure fun _ ↦ ⟨depth_empty_le, nofun⟩

private theorem framed_resolveContext (uid : Uid) (context : Option (TypeExpr TypeRef)) :
    Framed level (resolveContext index extensions uid ns origin context) fun r ↦
      r.toType.depth ≤ TypeExpr.maxDepth := by
  apply (framed_resolveOptionalType context).bind
  intro result
  split
  · exact .pure fun _ _ ↦ depth_empty_le
  · next t =>
    cases hr : t.record? with
    | none => exact (framed_report _ rfl).bind fun _ ↦ .pure fun _ _ _ ↦ depth_empty_le
    | some r =>
      apply Kind.Triple.pure
      intro _ h
      simpa [hr] using h.record_depth_le

private theorem framed_resolveAction (uid : Uid) (d : Placed Action) :
    Framed level (resolveAction index extensions uid d) ShallowAction := by
  unfold resolveAction
  apply (Kind.Triple.resolveActionParents fun _ ↦ framed_report _ rfl).bind
  intro parents
  suffices happlies : Framed level
      (resolveAppliesTo index extensions uid d.ns _ d.declaration.body.appliesTo)
      fun result ↦ ∀ applies ∈ result, applies.context.toType.depth ≤ TypeExpr.maxDepth from
    happlies.bind fun _ ↦ .pure fun _ h _ ↦ h
  cases d.declaration.body.appliesTo with
  | none => exact .pure fun _ ↦ nofun
  | some block =>
    apply (Kind.Triple.resolveNames framed_requireEntity).bind
    intro principals
    apply (Kind.Triple.resolveNames framed_requireEntity).bind
    intro resources
    apply (framed_resolveContext uid block.context).bind
    intro context
    apply Kind.Triple.pure
    rintro - hcontext - - _ ⟨⟩
    exact hcontext

/-! ### Whole runs -/

private theorem framed_resolveEntries {κ : Type} {f : κ → α → Resolving β} {P : β → Prop}
    (hf : ∀ k a, Framed level (f k a) P) (entries : List (κ × α)) :
    Framed level (resolveEntries f entries) fun results ↦ ∀ e ∈ results, P e.2 := by
  induction entries with
  | nil => exact .pure fun _ ↦ nofun
  | cons e rest ih =>
    apply (hf e.1 e.2).bind
    intro b
    apply ih.bind
    intro others
    exact .pure fun _ hothers hb ↦ List.forall_mem_cons.mpr ⟨hb, hothers⟩

private theorem framed_closeHierarchies (entityTypes : Table Name ResolvedEntityType)
    (actions : Table Uid ResolvedAction) :
    Framed level (closeHierarchies index entityTypes actions)
      (· = closed index entityTypes actions) := fun s ↦
  have hcloses : Framed level (closeHierarchies index entityTypes actions) fun _ ↦ True :=
    .closeHierarchies (fun _ _ ↦ framed_report _ rfl) fun _ _ ↦ framed_report _ rfl
  ⟨(hcloses s).rel, fun _ ↦ closeHierarchies_result s⟩

/-- A run leaves alone what it should, and no type of the schema that it gives nests deeper than is
allowed. -/
theorem framed_resolveIndex (order : List Name) :
    Framed level (resolveIndex index extensions order) fun r ↦
      ∀ t, r.HasType t → t.depth ≤ TypeExpr.maxDepth := by
  apply (framed_resolveCommonTypes order).bind
  intro _
  apply (framed_resolveEntries framed_resolveEntityType _).bind
  intro entityTypes
  apply (framed_resolveEntries framed_resolveAction _).bind
  intro actions
  apply (framed_closeHierarchies _ _).imp
  rintro - _ rfl hactions hentities - t ht
  have hentity {n : Name} {e : ResolvedEntityType}
      (he : (closed index (.ofList entityTypes) (.ofList actions)).entityTypes.find? n = some e) :
      ShallowEntity e := by
    rw [closed, Table.find?_mapEntries] at he
    obtain ⟨e', he', rfl⟩ := Option.map_eq_some_iff.mp he
    have hfound := hentities _ (Table.mem_of_mem_ofList (Table.find?_eq_some_iff.mp he'))
    exact ⟨hfound.attributes, hfound.tags⟩
  cases ht with
  | attributes he => exact (hentity he).attributes
  | tags he ht => exact (hentity he).tags t ht
  | context ha happlies =>
    rw [closed, Table.find?_mapEntries] at ha
    obtain ⟨a', ha', rfl⟩ := Option.map_eq_some_iff.mp ha
    exact hactions _ (Table.mem_of_mem_ofList (Table.find?_eq_some_iff.mp ha')) _ happlies

end PolicySchema.Resolve
