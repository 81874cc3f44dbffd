import PolicySchema.Proofs.Resolve.Running

/-!
# Inlining unfolds

A run that ends without a problem gives each type that it resolves what the type unfolds to. The
induction is on the number of bodies that may still be walked inside one another. A reference to a
common type whose body is being walked is found on a cycle, because every such body leads to the
reference (`yields_inlineUpTo`).
-/

namespace PolicySchema.Resolve

open Resolving

variable {index : Index} {extensions : Extensions} {ds : List Declared} {steps : Nat}
  {front : Name → Prop} {α : Type}

/-- There is a result, and it has the property. -/
def Gives (P : α → Prop) (result : Option α) : Prop := ∃ a, result = some a ∧ P a

/-! ### Sets and records -/

private theorem yields_setDepth (depth : Nat) :
    Yields index ds steps front (setDepth depth) fun _ ↦ True :=
  .of_common_eq fun _ hs ↦ ⟨hs, rfl, trivial⟩

private theorem yields_closeLevel : Yields index ds steps front closeLevel fun _ ↦ True :=
  .of_common_eq fun _ hs ↦ ⟨hs, rfl, trivial⟩

private theorem yields_withinDepth (origin : Origin) (depth : Nat) :
    Yields index ds steps front (withinDepth origin depth) (· = true) :=
  (Kind.Triple.withinDepth (yields_report _ _ fun _ ↦ False)).imp fun _ ok h ↦
    by simpa using h.1

private theorem yields_openLevel (origin : Origin) :
    Yields index ds steps front (openLevel origin) fun opened ↦ opened = true := by
  apply Kind.Triple.get_bind
  intro s
  apply (yields_withinDepth origin _ s).bind
  intro ok
  split
  · exact (yields_setDepth _).bind fun _ ↦ .pure fun _ _ _ ↦ rfl
  · next hfull => exact .pure fun _ hok ↦ absurd hok hfull

section

variable {leaf : TypeRef → Resolving (Option ResolvedType)} {origin : Origin} {ns : Option Name}

mutual

private theorem yields_resolveWith (t : TypeExpr TypeRef)
    (hleaf : ∀ r ∈ t.leaves, Yields index ds steps front (leaf r)
      (Gives (Unfolds ds (IsCyclic ds) ns (.leaf r)))) :
    Yields index ds steps front (resolveWith leaf origin t)
      (Gives (Unfolds ds (IsCyclic ds) ns t)) := by
  match t with
  | .leaf r => exact hleaf r (by simp [TypeExpr.leaves])
  | .set element =>
    apply (yields_openLevel origin).bind
    intro opened
    split
    · apply (yields_resolveWith element hleaf).bind
      intro result
      apply yields_closeLevel.bind
      intro _
      apply Kind.Triple.pure
      rintro - - ⟨u, rfl, hu⟩ -
      exact ⟨_, rfl, .set hu⟩
    · exact .pure fun _ hopened ↦ absurd hopened ‹_›
  | .record fields notes =>
    apply (yields_openLevel origin).bind
    intro opened
    split
    · apply (yields_resolveFieldsWith fields hleaf).bind
      intro result
      apply yields_closeLevel.bind
      intro _
      apply Kind.Triple.pure
      rintro - - ⟨u, rfl, hu⟩ -
      exact ⟨_, rfl, .record hu⟩
    · exact .pure fun _ hopened ↦ absurd hopened ‹_›

private theorem yields_resolveFieldsWith (fields : Fields TypeRef)
    (hleaf : ∀ r ∈ fields.leaves, Yields index ds steps front (leaf r)
      (Gives (Unfolds ds (IsCyclic ds) ns (.leaf r)))) :
    Yields index ds steps front (resolveFieldsWith leaf origin fields)
      (Gives (UnfoldsFields ds (IsCyclic ds) ns fields)) := by
  match fields with
  | .nil => exact .pure fun _ ↦ ⟨_, rfl, .nil⟩
  | .cons key t required notes rest =>
    apply (yields_resolveWith t fun r hr ↦ hleaf r (List.mem_append_left _ hr)).bind
    intro result
    apply (yields_resolveFieldsWith rest fun r hr ↦ hleaf r (List.mem_append_right _ hr)).bind
    intro result'
    split
    · apply Kind.Triple.pure
      rintro - ⟨_, ⟨⟩, hrest⟩ ⟨_, ⟨⟩, ht⟩
      exact ⟨_, rfl, .cons ht hrest⟩
    · next hnone =>
      apply Kind.Triple.pure
      rintro - ⟨u', rfl, -⟩ ⟨u, rfl, -⟩
      exact absurd rfl (hnone u u' rfl)

end

end

/-! ### References -/

/-- An entity type that is known is found. -/
theorem entityAtom_of_known {origin : Origin} {n : Name} (hn : index.known.contains n = true) :
    entityAtom index origin n = pure (some (.leaf (.entity n))) := by
  rw [entityAtom, requireEntity, if_pos hn]
  rfl

/-- An entity type that is not known is rejected. -/
theorem entityAtom_of_not_known {origin : Origin} {n : Name}
    (hn : ¬index.known.contains n = true) :
    entityAtom index origin n = reject (.unknownEntityType n origin.label) origin := by
  rw [entityAtom, requireEntity, if_neg hn]
  rfl

private theorem yields_entityAtom (origin : Origin) (n : Name) :
    Yields index ds steps front (entityAtom index origin n)
      (Gives fun u ↦ HasEntityType ds n ∧ u = .leaf (.entity n)) := by
  unfold entityAtom requireEntity
  split
  · next hn =>
    exact .pure fun hindex ↦ ⟨_, rfl, (hindex.known n).mp hn, rfl⟩
  · exact (yields_reject _ _ fun _ ↦ False).bind fun _ ↦ .pure fun _ ↦ False.elim

private theorem yields_extensionAtom (origin : Origin) (id : Identifier) :
    Yields index ds steps front (extensionAtom extensions origin id)
      (Gives fun u ↦ u = .leaf (.extension id)) := by
  unfold extensionAtom
  split
  · apply yields_reject
  · split
    · apply yields_reject
    · exact .pure fun _ ↦ ⟨_, rfl, rfl⟩

private theorem yields_resolveRef {inner : Inliner} {ns : Option Name} {origin : Origin}
    {r : TypeRef} (hinner : ∀ n, (index.Reflects ds → Denotes ds ns r (.common n)) →
      Yields index ds steps front (inner origin n) (Gives (UnfoldsName ds (IsCyclic ds) n))) :
    Yields index ds steps front (resolveRef index extensions inner ns origin r)
      (Gives (Unfolds ds (IsCyclic ds) ns (.leaf r))) := by
  have denoted {x : Referent} (hx : (index.target ns r).referent? = some x)
      (hindex : index.Reflects ds) : Denotes ds ns r x := hindex.denotes_iff.mpr hx
  unfold resolveRef
  split
  · next a ha =>
    exact .pure fun hindex ↦ ⟨_, rfl, .atom (denoted (by simp [ha, Target.referent?]) hindex)⟩
  · next n hn =>
    have hr := denoted (x := .common n) (by simp [hn, Target.referent?])
    apply (hinner n hr).imp
    rintro hindex _ ⟨u, rfl, hu⟩
    exact ⟨u, rfl, .common (hr hindex) hu⟩
  · next n hn =>
    apply (yields_entityAtom origin n).imp
    rintro hindex _ ⟨_, rfl, -, rfl⟩
    exact ⟨_, rfl, .atom (denoted (by simp [hn, Target.referent?]) hindex)⟩
  · next id hid =>
    apply (yields_extensionAtom origin id).imp
    rintro hindex _ ⟨_, rfl, rfl⟩
    exact ⟨_, rfl, .atom (denoted (by simp [hid, Target.referent?]) hindex)⟩
  · apply yields_reject

/-! ### Common types -/

private theorem yields_placeInside (origin : Origin) (outcome : Option (ResolvedType × Nat)) :
    Yields index ds steps front (placeInside origin outcome) fun result ↦
      ∀ t depth, outcome = some (t, depth) → result = some t := by
  unfold placeInside
  split
  · exact .pure fun _ ↦ nofun
  · next t depth =>
    apply Kind.Triple.get_bind
    intro s
    apply (yields_withinDepth origin _ s).bind
    intro ok
    split
    · apply Kind.Triple.pure
      rintro - - _ _ ⟨⟩
      rfl
    · next hfull => exact .pure fun _ hok ↦ absurd hok hfull

/-- The bodies being walked while that of `n` is. -/
def Leading (ds : List Declared) (n m : Name) : Prop :=
  Relation.ReflTransGen (RefersTo ds) m n

-- Walking the body of a common type gives what it unfolds to, if the references in it unfold while
-- one more body is being walked and one fewer is left.
private theorem yieldsAt_walkBody {inner : Inliner} {n : Name} {d : Placed (TypeExpr TypeRef)}
    {s : State} (hs : s.common.find? n = some .waiting)
    (hd : index.commonTypes.find? n = some d)
    (hfront : index.Reflects ds → ∀ m, front m → Leading ds n m)
    (hinner : ∀ r ∈ d.declaration.body.leaves, Yields index ds steps (Leading ds n)
      (resolveRef index extensions inner d.ns (commonOrigin n d.declaration.location) r)
      (Gives (Unfolds ds (IsCyclic ds) d.ns (.leaf r)))) :
    YieldsAt index ds (steps + 1) front s (walkBody index extensions inner n d) fun outcome ↦
      ∃ t, outcome = some (t, t.nestingDepth) ∧ BodyUnfolds ds n t := by
  refine yieldsAt_iff.mpr ?_
  obtain ⟨-, hrun⟩ | hrun := run_walkBody_cases index extensions inner n d s
  · rw [hrun]
    intro hend
    have hnil : s.problems ++ [⟨.chainTooLong n, d.declaration.location⟩] = [] := hend
    simp at hnil
  rw [hrun]
  intro hend
  obtain ⟨hbefore, hwalk⟩ := yieldsAt_iff.mp
    (yields_resolveWith d.declaration.body hinner (s.opened n)) hend
  refine ⟨hbefore, fun hsound hready ↦ ?_⟩
  have hopened : Sound index ds (s.opened n) := hsound.note rfl (by simp [hs]) nofun
  have hready' : Ready steps (Leading ds n) (s.opened n) :=
    hready.walk hs rfl (hfront hsound.reflects) .refl
  obtain ⟨hwalked, hlater, t, ht, hu⟩ := hwalk hopened hready'
  have hd' : .commonType n d ∈ ds := (hsound.reflects.commonType n d).mp hd
  have houtcome : ∃ t, withDepth ((resolveBody index extensions inner n d).run (s.opened n)).1 =
      some (t, t.nestingDepth) ∧ BodyUnfolds ds n t :=
    ⟨t, congrArg withDepth ht, d, hd', hu⟩
  have hknown :
      (((resolveBody index extensions inner n d).run (s.opened n)).2.common.find? n).isSome =
        true := by
    refine (hwalked.known n).trans ?_
    rw [hd]
    rfl
  refine ⟨hwalked.note rfl hknown ?_, hlater.settle hs rfl rfl, houtcome⟩
  rintro _ ⟨⟩
  exact houtcome

section

variable {origin : Origin} {n : Name}

-- A common type whose body needs no walk is inlined as it unfolds, and its body is walked only
-- while there are steps left.
private theorem yields_inlineUpTo_of_walkBody (hdeclared : index.Reflects ds → HasCommonType ds n)
    (hfront : index.Reflects ds → ∀ m, front m → Relation.TransGen (RefersTo ds) m n)
    (hwalk : ∀ s d rest, steps = rest + 1 → s.common.find? n = some .waiting →
      index.commonTypes.find? n = some d → YieldsAt index ds steps front s
        (walkBody index extensions (inlineUpTo index extensions rest) n d) fun outcome ↦
          ∃ t, outcome = some (t, t.nestingDepth) ∧ BodyUnfolds ds n t) :
    Yields index ds steps front (inlineUpTo index extensions steps origin n)
      (Gives (UnfoldsName ds (IsCyclic ds) n)) := by
  have place (outcome : Option (ResolvedType × Nat)) :
      Yields index ds steps front (placeInside origin outcome) fun result ↦
        (∃ t, outcome = some (t, t.nestingDepth) ∧ BodyUnfolds ds n t) →
        Gives (UnfoldsName ds (IsCyclic ds) n) result := by
    apply (yields_placeInside origin outcome).imp
    rintro - result hplace ⟨t, ht, hu⟩
    exact ⟨t, hplace t _ ht, hu.unfoldsName⟩
  unfold inlineUpTo
  apply Kind.Triple.get_bind
  intro s
  split
  · next hs =>
    -- Something is known of every declared common type.
    apply Kind.TripleAt.pure
    rintro ⟨-, hsound, -⟩
    obtain ⟨d, hd⟩ := hdeclared hsound.reflects
    have hknown := hsound.known n
    rw [hs, (hsound.reflects.commonType n d).mpr hd] at hknown
    cases hknown
  · next hs =>
    -- The body that is being walked leads to this reference, so it lies on a cycle.
    apply (yields_entityAtom origin n s).imp
    rintro ⟨-, hsound, hready⟩ _ ⟨_, rfl, hentity, rfl⟩
    have hcyclic : IsCyclic ds n := hfront hsound.reflects n (hready.walking n hs)
    exact ⟨_, rfl, .loop hcyclic hentity⟩
  · next outcome hs =>
    apply (place outcome s).imp
    rintro ⟨-, hsound, -⟩ result hresult
    exact hresult (hsound.settled n outcome hs)
  · next hs =>
    split
    · next rest d hd => exact (hwalk s d rest rfl hs hd).bind place
    · next hnone =>
      -- There are steps left, since this body is.
      apply Kind.TripleAt.pure
      rintro ⟨-, hsound, hready⟩
      obtain ⟨d, hd⟩ := hdeclared hsound.reflects
      obtain ⟨rest, hrest⟩ := hready.exists_step hs
      exact (hnone rest d hrest ((hsound.reflects.commonType n d).mpr hd)).elim

private theorem yields_inlineUpTo (hdeclared : index.Reflects ds → HasCommonType ds n)
    (hfront : index.Reflects ds → ∀ m, front m → Relation.TransGen (RefersTo ds) m n) :
    Yields index ds steps front (inlineUpTo index extensions steps origin n)
      (Gives (UnfoldsName ds (IsCyclic ds) n)) := by
  induction steps generalizing front origin n with
  | zero => exact yields_inlineUpTo_of_walkBody hdeclared hfront nofun
  | succ steps ih =>
    apply yields_inlineUpTo_of_walkBody hdeclared hfront
    rintro s d rest ⟨⟩ hs hd
    apply yieldsAt_walkBody hs hd fun hindex m hm ↦ (hfront hindex m hm).to_reflTransGen
    intro r hr
    apply yields_resolveRef
    intro m hm
    apply ih fun hindex ↦ (hm hindex).hasCommonType
    intro hindex k hk
    have hedge : RefersTo ds n m := ⟨d, r, (hindex.commonType n d).mp hd, hr, hm hindex⟩
    exact .tail' hk hedge

end

/-! ### Types -/

/-- A step that is run while no body is being walked, with as many steps as there are common
types. -/
def Completes (index : Index) (ds : List Declared) (x : Resolving α) (Q : α → Prop) : Prop :=
  Yields index ds index.commonTypes.size (fun _ ↦ False) x Q

/-- A type that a declaration holds is resolved to what it unfolds to. -/
theorem completes_resolveType {ns : Option Name} {origin : Origin} (t : TypeExpr TypeRef) :
    Completes index ds (resolveType index extensions ns origin t)
      (Gives (Unfolds ds (IsCyclic ds) ns t)) := by
  apply yields_resolveWith
  intro r _
  apply yields_resolveRef
  intro n hn
  exact yields_inlineUpTo (fun hindex ↦ (hn hindex).hasCommonType) (by simp)

/-! ### Bodies that are walked -/

private theorem common_entityAtom (origin : Origin) (n : Name) (s : State) :
    ((entityAtom index origin n).run s).2.common = s.common := by
  unfold entityAtom requireEntity
  split <;> rfl

private theorem common_placeInside (origin : Origin) (outcome : Option (ResolvedType × Nat))
    (s : State) : ((placeInside origin outcome).run s).2.common = s.common := by
  cases outcome with
  | none => rfl
  | some found =>
    obtain ⟨-, checks, -, hrun⟩ | ⟨-, hrun⟩ := run_placeInside_cases origin found.1 found.2 s <;>
      exact congrArg (fun run ↦ run.2.common) hrun

private theorem find?_walkBody (inner : Inliner) (n : Name) (d : Placed (TypeExpr TypeRef))
    (s : State) : ∃ outcome,
      ((walkBody index extensions inner n d).run s).2.common.find? n = some (.settled outcome) :=
  ⟨_, (Table.find?_insert _ n n _).trans (if_pos rfl)⟩

/-- The body of a declared common type is not left to be walked once the common type is inlined. -/
theorem not_waiting_inline (origin : Origin) {n : Name} {d : Placed (TypeExpr TypeRef)}
    (hd : index.commonTypes.find? n = some d) (s : State) :
    ((inline index extensions origin n).run s).2.common.find? n ≠ some .waiting := by
  obtain ⟨rest, hrest⟩ : ∃ rest, index.commonTypes.size = rest + 1 := by
    have hmem : n ∈ index.commonTypes.keys := Table.mem_keys_iff.mpr (by simp [hd])
    have hpos := List.length_pos_of_mem hmem
    rw [Table.keys, List.length_map] at hpos
    exact Nat.exists_eq_add_one.mpr hpos
  unfold inline inlineUpTo
  rw [run_get_bind, hrest, hd]
  split
  · next hs =>
    change s.common.find? n ≠ _
    simp [hs]
  · next hs => simp [common_entityAtom, hs]
  · next hs => simp [common_placeInside, hs]
  · next hs =>
    obtain ⟨outcome, hsettled⟩ := find?_walkBody (inlineUpTo index extensions rest) n d s
    rw [run_bind, common_placeInside, hsettled]
    simp

/-- Walking declared common types keeps the state sound, and leaves none of their bodies. -/
theorem completesAt_resolveCommonTypes (names : List Name)
    (hnames : ∀ n ∈ names, index.Reflects ds → HasCommonType ds n) (s : State) :
    YieldsAt index ds index.commonTypes.size (fun _ ↦ False) s
      (resolveCommonTypes index extensions names) fun _ ↦ ∀ n ∈ names,
        ((resolveCommonTypes index extensions names).run s).2.common.find? n ≠ some .waiting := by
  induction names generalizing s with
  | nil => exact .pure fun _ ↦ nofun
  | cons n rest ih =>
    have hinline : Completes index ds (inline index extensions (commonOrigin n none) n)
        (Gives (UnfoldsName ds (IsCyclic ds) n)) :=
      yields_inlineUpTo (hnames n List.mem_cons_self) (by simp)
    rw [resolveCommonTypes]
    refine yieldsAt_iff.mpr fun hend ↦ ?_
    rw [run_bind] at hend ⊢
    obtain ⟨hmiddle, hothers⟩ :=
      yieldsAt_iff.mp (ih (fun m hm ↦ hnames m (List.mem_cons_of_mem _ hm)) _) hend
    obtain ⟨hbefore, hfirst⟩ := yieldsAt_iff.mp (hinline s) hmiddle
    refine ⟨hbefore, fun hsound hready ↦ ?_⟩
    obtain ⟨hsound', hlater, -⟩ := hfirst hsound hready
    obtain ⟨hsound'', hlater', hrest⟩ := hothers hsound' (hready.later hlater)
    refine ⟨hsound'', hlater.trans hlater', List.forall_mem_cons.mpr ⟨fun hn ↦ ?_, hrest⟩⟩
    obtain ⟨d, hd⟩ := hnames n List.mem_cons_self hsound.reflects
    exact not_waiting_inline _ ((hsound.reflects.commonType n d).mpr hd) s (hlater'.waiting n hn)

end PolicySchema.Resolve
