import Mathlib.Order.Bounds.Defs
import PolicySchema.Proofs.Nesting
import PolicySchema.Proofs.Resolve.Inlining

/-!
# Depth of what is put in place

The paths into a type end at its leaves and inside of records without attributes. When types are put
in place of the leaves, the result is as deep as the sets and records on one of these paths and what
is put at its end are together, and no path leads deeper (`TypeExpr.isGreatest_depthAt`). This does
not depend on what the leaves are: where each holds its own place, leaves that refer to the same can
be replaced by different types. So the number of open sets and records and the depth that is noted
for a common type are all that has to be compared with the bound where the common type is put in
place (`TypeExpr.nestingDepth_structural`).
-/

namespace PolicySchema

variable {ρ σ : Type}

/-! ### Where paths end -/

/-- A path into the type ends inside of so many sets and records, at a leaf or, where there is none,
inside of a record without attributes. -/
inductive TypeExpr.EndsAt : TypeExpr ρ → Nat → Option ρ → Prop where
  | leaf (r : ρ) : EndsAt (.leaf r) 0 (some r)
  | set {element around r?} : EndsAt element around r? → EndsAt (.set element) (around + 1) r?
  | empty (notes : Annotations) : EndsAt (.record .nil notes) 1 none
  | inside {fields notes e around r?} : e ∈ fields.toList → EndsAt e.2.type around r? →
      EndsAt (.record fields notes) (around + 1) r?

/-- The depth of what is put at the end of a path. Nothing is put inside of a record. -/
def depthAt (f : ρ → TypeExpr σ) (r? : Option ρ) : Nat := r?.elim 0 fun r ↦ (f r).nestingDepth

private theorem TypeExpr.EndsAt.add_depthAt_le {t : TypeExpr ρ} {around : Nat} {r? : Option ρ}
    (h : t.EndsAt around r?) (f : ρ → TypeExpr σ) : around + depthAt f r? ≤ (t.bind f).depth := by
  induction h with
  | leaf r => exact Nat.le_of_eq ((Nat.zero_add _).trans (f r).nestingDepth_eq_depth)
  | set _ ih =>
    rw [TypeExpr.bind, TypeExpr.depth]
    omega
  | empty notes => exact Nat.le_refl 1
  | @inside fields notes e around r? he _ ih =>
    have hmem : (e.1, ⟨e.2.type.bind f, e.2.required, e.2.annotations⟩) ∈
        (fields.bind f).toList := by
      rw [Fields.toList_bind]
      exact List.mem_map_of_mem he
    have hbound : (e.2.type.bind f).depth ≤ (fields.bind f).depth :=
      Fields.depth_le_iff.mp (Nat.le_refl _) _ hmem
    rw [TypeExpr.bind, TypeExpr.depth]
    omega

mutual

private theorem TypeExpr.exists_endsAt : ∀ (t : TypeExpr ρ) (f : ρ → TypeExpr σ),
    ∃ around r?, t.EndsAt around r? ∧ around + depthAt f r? = (t.bind f).depth
  | .leaf r, f => ⟨0, some r, .leaf r, (Nat.zero_add _).trans (f r).nestingDepth_eq_depth⟩
  | .set element, f => by
    obtain ⟨around, r?, hend, hdepth⟩ := element.exists_endsAt f
    refine ⟨around + 1, r?, .set hend, ?_⟩
    rw [TypeExpr.bind, TypeExpr.depth]
    omega
  | .record fields notes, f => by
    rcases fields.exists_endsAt f with rfl | ⟨e, he, around, r?, hend, hdepth⟩
    · exact ⟨1, none, .empty notes, rfl⟩
    · refine ⟨around + 1, r?, .inside he hend, ?_⟩
      rw [TypeExpr.bind, TypeExpr.depth]
      omega

-- Unless there are no attributes, a path into the type of one of them leads to the greatest depth.
private theorem Fields.exists_endsAt : ∀ (fields : Fields ρ) (f : ρ → TypeExpr σ), fields = .nil ∨
    ∃ e ∈ fields.toList, ∃ around r?, e.2.type.EndsAt around r? ∧
      around + depthAt f r? = (fields.bind f).depth
  | .nil, _ => .inl rfl
  | .cons key type required notes rest, f => by
    right
    rw [Fields.bind, Fields.depth]
    obtain ⟨around, r?, hend, hdepth⟩ := type.exists_endsAt f
    by_cases hle : (rest.bind f).depth ≤ (type.bind f).depth
    · rw [Nat.max_eq_left hle]
      exact ⟨_, List.mem_cons_self, around, r?, hend, hdepth⟩
    · rw [Nat.max_eq_right (Nat.le_of_not_le hle)]
      rcases rest.exists_endsAt f with rfl | ⟨e, he, hrest⟩
      · exact absurd (Nat.zero_le _) hle
      · exact ⟨e, List.mem_cons_of_mem _ he, hrest⟩

end

/-- The type that results is as deep as what is put at the ends of paths, each inside of the sets
and records on its path. -/
theorem TypeExpr.isGreatest_depthAt (t : TypeExpr ρ) (f : ρ → TypeExpr σ) :
    IsGreatest {d | ∃ around r?, t.EndsAt around r? ∧ around + depthAt f r? = d}
      (t.bind f).nestingDepth := by
  rw [nestingDepth_eq_depth]
  refine ⟨t.exists_endsAt f, ?_⟩
  rintro _ ⟨around, r?, hend, rfl⟩
  exact hend.add_depthAt_le f

namespace Resolve

open Resolving

variable {β : Type} {index : Index} {extensions : Extensions} {ns : Option Name} {origin : Origin}
  {common : Table Name Progress} {s : State} {f : TypeRef → ResolvedType}

/-! ### Where types fit -/

/-- The type that a reference leads to is known in the state, without a walk through a body. -/
inductive LeadsTo (index : Index) (extensions : Extensions) (ns : Option Name) (s : State)
    (r : TypeRef) : ResolvedType → Prop where
  | atom {a} : index.target ns r = .atom a → LeadsTo index extensions ns s r (.leaf a)
  | common {n u} : index.target ns r = .common n →
      s.common.find? n = some (.settled (some (u, u.nestingDepth))) →
      LeadsTo index extensions ns s r u
  | entity {n} : index.target ns r = .entity n → index.known.contains n = true →
      LeadsTo index extensions ns s r (.leaf (.entity n))
  | extension {id} : index.target ns r = .extension id → isKnownExtension id.text = true →
      extensions.isEnabled id.text = true → LeadsTo index extensions ns s r (.leaf (.extension id))

-- What is of the given depth is the result where it fits inside the open sets and records. There is
-- none where it does not, and there may be none if the stack is found exhausted.
private def Brought (s : State) (b : β) (depth : Nat) (result : Option β) : Prop :=
  result = some b ∧ s.depth + depth ≤ TypeExpr.maxDepth ∨
    result = none ∧ (TypeExpr.maxDepth < s.depth + depth ∨ true ∈ s.checks)

-- The step brings what is of the given depth where it fits. What is open and what is noted of
-- common types stays as it is.
private structure BringsAt (s : State) (x : Resolving (Option β)) (b : β) (depth : Nat) : Prop where
  result : Brought s b depth (x.run s).1
  depth : (x.run s).2.depth = s.depth
  common : (x.run s).2.common = s.common
  checks : (x.run s).2.checks <:+ s.checks

private def Brings (common : Table Name Progress) (x : Resolving (Option β)) (b : β) (depth : Nat) :
    Prop := ∀ s, s.common = common → s.depth ≤ TypeExpr.maxDepth → BringsAt s x b depth

private theorem brings_pure (b : β) : Brings common (pure (some b)) b 0 :=
  fun _ _ hs ↦ ⟨.inl ⟨rfl, hs⟩, rfl, rfl, List.suffix_rfl⟩

private theorem brings_inside {x : Resolving (Option β)} {make : β → ResolvedType} {b : β}
    {depth : Nat} (hx : Brings common x b depth) :
    Brings common (do
      if ← openLevel origin then
        let b ← x
        closeLevel
        pure (b.map make)
      else pure none) (make b) (depth + 1) := by
  intro s hcommon _
  obtain ⟨hwhy, checks, hchecks, hopen⟩ | ⟨hroom, hopen⟩ := run_openLevel_cases origin s
  · constructor <;> rw [run_bind, hopen]
    · exact .inr ⟨rfl, hwhy.imp_left fun hfull ↦ by omega⟩
    · rfl
    · rfl
    · exact hchecks
  · have hinside := hx { s.checked with depth := s.depth + 1 } hcommon hroom
    constructor <;> rw [run_bind, hopen]
    · obtain ⟨hresult, hfits⟩ | ⟨hresult, hwhy⟩ := hinside.result
      · exact .inl ⟨congrArg (Option.map make) hresult, by dsimp only at hfits; omega⟩
      · refine .inr ⟨congrArg (Option.map make) hresult,
          hwhy.imp (fun hdeep ↦ ?_) List.mem_of_mem_tail⟩
        dsimp only at hdeep
        omega
    · exact congrArg (· - 1) hinside.depth
    · exact hinside.common
    · exact hinside.checks.trans (List.tail_suffix _)

section

variable {leaf : TypeRef → Resolving (Option ResolvedType)}

mutual

private theorem brings_resolveWith (t : TypeExpr TypeRef)
    (hleaf : ∀ r ∈ t.leaves, Brings common (leaf r) (f r) (f r).depth) :
    Brings common (resolveWith leaf origin t) (t.bind f) (t.bind f).depth := by
  match t with
  | .leaf r => exact hleaf r (by simp [TypeExpr.leaves])
  | .set element => exact brings_inside (brings_resolveWith element hleaf)
  | .record fields notes => exact brings_inside (brings_resolveFieldsWith fields hleaf)

private theorem brings_resolveFieldsWith (fields : Fields TypeRef)
    (hleaf : ∀ r ∈ fields.leaves, Brings common (leaf r) (f r) (f r).depth) :
    Brings common (resolveFieldsWith leaf origin fields) (fields.bind f) (fields.bind f).depth := by
  match fields with
  | .nil => exact brings_pure _
  | .cons key type required notes rest =>
    intro s hcommon hs
    have htype := brings_resolveWith type (fun r hr ↦ hleaf r (List.mem_append_left _ hr)) s
      hcommon hs
    have hrest := brings_resolveFieldsWith rest (fun r hr ↦ hleaf r (List.mem_append_right _ hr)) _
      (htype.common.trans hcommon) (htype.depth.symm ▸ hs)
    constructor <;> rw [resolveFieldsWith, run_bind, run_bind]
    · rw [Brought, Fields.bind, Fields.depth]
      obtain ⟨hfirst, hfits⟩ | ⟨hfirst, hwhy⟩ := htype.result
      · obtain ⟨hothers, hfits'⟩ | ⟨hothers, hwhy⟩ := hrest.result <;> rw [hfirst, hothers]
        · rw [htype.depth] at hfits'
          exact .inl ⟨rfl, by omega⟩
        · rw [htype.depth] at hwhy
          exact .inr ⟨rfl, hwhy.imp (fun hdeep ↦ by omega) fun h ↦ htype.checks.subset h⟩
      · rw [hfirst]
        exact .inr ⟨rfl, hwhy.imp_left fun hdeep ↦ by omega⟩
    · split <;> exact hrest.depth.trans htype.depth
    · split <;> exact hrest.common.trans htype.common
    · split <;> exact hrest.checks.trans htype.checks

end

end

private theorem brings_placeInside (u : ResolvedType) :
    Brings common (placeInside origin (some (u, u.nestingDepth))) u u.depth := by
  intro s _ _
  rw [u.nestingDepth_eq_depth]
  obtain ⟨hwhy, checks, hchecks, hrun⟩ | ⟨hfits, hrun⟩ := run_placeInside_cases origin u u.depth s
  · constructor <;> rw [hrun]
    · exact .inr ⟨rfl, hwhy⟩
    · rfl
    · rfl
    · exact hchecks
  · constructor <;> rw [hrun]
    · exact .inl ⟨rfl, hfits⟩
    · rfl
    · rfl
    · exact List.tail_suffix _

private theorem brings_resolveRef {r : TypeRef} {u : ResolvedType}
    (h : LeadsTo index extensions ns s r u) :
    Brings s.common (resolveRef index extensions (inline index extensions) ns origin r) u
      u.depth := by
  cases h with
  | atom htarget =>
    rw [resolveRef, htarget]
    exact brings_pure _
  | @common n _ htarget hsettled =>
    intro s' hcommon hs'
    rw [← hcommon] at hsettled
    have hrun : (inline index extensions origin n).run s' =
        (placeInside origin (some (u, u.nestingDepth))).run s' := by
      unfold inline inlineUpTo
      rw [run_get_bind, hsettled]
    obtain ⟨hresult, hdepth, hkept, hchecks⟩ :
        BringsAt s' (placeInside origin (some (u, u.nestingDepth))) u u.depth :=
      brings_placeInside u s' hcommon hs'
    rw [resolveRef, htarget]
    constructor <;> dsimp only <;> rw [hrun]
    · exact hresult
    · exact hdepth
    · exact hkept
    · exact hchecks
  | entity htarget hn =>
    rw [resolveRef, htarget]
    dsimp only
    rw [entityAtom_of_known hn]
    exact brings_pure _
  | extension htarget hid henabled =>
    rw [resolveRef, htarget]
    dsimp only [extensionAtom]
    rw [hid, henabled]
    exact brings_pure _

end Resolve

open Resolve

/-- Measuring a type part by part comes to an end, after one step for each of its leaves, sets and
records, and gives its depth by recursion. With types in place of the leaves, the depth is the
greatest number of sets and records around the end of a path together with the depth of what is put
there. So where all that the references in a type lead to is known, the type resolves to the one
with all of it in place, exactly if this one fits inside the sets and records that are open, unless
the stack is found exhausted. -/
theorem TypeExpr.nestingDepth_structural :
    (∀ (ρ : Type) (t : TypeExpr ρ),
      Measurement.step^[t.size] (.start t) = ⟨t.nestingDepth, []⟩ ∧ t.nestingDepth = t.depth) ∧
    (∀ (ρ σ : Type) (t : TypeExpr ρ) (f : ρ → TypeExpr σ),
      IsGreatest {d | ∃ around r?, t.EndsAt around r? ∧ around + depthAt f r? = d}
        (t.bind f).nestingDepth) ∧
    ∀ (index : Index) (extensions : Extensions) (ns : Option Name) (origin : Origin)
      (t : TypeExpr TypeRef) (f : TypeRef → ResolvedType) (s : State),
      s.depth ≤ TypeExpr.maxDepth →
      (∀ r ∈ t.leaves, LeadsTo index extensions ns s r (f r)) →
      let result := ((resolveType index extensions ns origin t).run s).1
      result = (if s.depth + (t.bind f).nestingDepth ≤ TypeExpr.maxDepth then some (t.bind f)
        else none) ∨ true ∈ s.checks ∧ result = none := by
  refine ⟨fun ρ t ↦ ⟨?_, t.nestingDepth_eq_depth⟩, fun ρ σ ↦ isGreatest_depthAt, ?_⟩
  · have hwork : (Measurement.start t).work = t.size := Nat.add_zero _
    rw [← hwork]
    exact Measurement.iterate_step _
  · intro index extensions ns origin t f s hs hleads
    rw [nestingDepth_eq_depth]
    obtain ⟨hresult, hfits⟩ | ⟨hresult, hdeep | hexhausted⟩ :=
      (brings_resolveWith t (fun r hr ↦ brings_resolveRef (hleads r hr)) s rfl hs).result
    · exact .inl (hresult.trans (if_pos hfits).symm)
    · exact .inl (hresult.trans (if_neg (Nat.not_le.mpr hdeep)).symm)
    · exact .inr ⟨hexhausted, hresult⟩

/-- A record with a set of a common type of sets is three deep, which fits inside of 29 sets and
records and not inside of 30. -/
theorem TypeExpr.nestingDepth_structural_codes :
    let code : Identifier := ⟨"Code", by decide⟩
    let codes : ResolvedType := .set (.leaf (.primitive .long))
    let index := (Index.collect [⟨.ofList [(none, { Namespace.empty with
      commonTypes := .ofList [(code, ⟨.set (.leaf (.primitive .long)), ∅, none⟩)] })]⟩]).1
    let settled :=
      ((resolveCommonTypes index .all index.commonTypes.keys).run (.start [] index [])).2
    let t : TypeExpr TypeRef :=
      .record (.cons "groups" (.set (.leaf (.common (.bare code)))) true ∅ .nil) ∅
    let resolved (depth : Nat) :=
      ((resolveType index .all none ⟨"tags", none⟩ t).run { settled with depth }).1
    (∀ depth, ∀ r ∈ t.leaves, LeadsTo index .all none { settled with depth } r codes) ∧
      (t.bind fun _ ↦ codes).nestingDepth = 3 ∧
      resolved 29 = some (t.bind fun _ ↦ codes) ∧ resolved 30 = none := by
  intro code codes index settled t resolved
  have hleads (depth : Nat) :
      ∀ r ∈ t.leaves, LeadsTo index .all none { settled with depth } r codes := by
    intro r hr
    obtain rfl := List.mem_singleton.mp hr
    have hsettled : settled.common.find? (.bare code) =
        some (.settled (some (codes, codes.nestingDepth))) := by decide +kernel
    exact .common (by decide +kernel) hsettled
  have hdepth : (t.bind fun _ ↦ codes).nestingDepth = 3 := by decide +kernel
  have hresolved (depth : Nat) (h : depth ≤ TypeExpr.maxDepth) : resolved depth =
      if depth + 3 ≤ TypeExpr.maxDepth then some (t.bind fun _ ↦ codes) else none := by
    have hroomy : settled.checks = [] := by decide +kernel
    rw [← hdepth]
    exact (nestingDepth_structural.2.2 index .all none ⟨"tags", none⟩ t (fun _ ↦ codes)
      { settled with depth } h (hleads depth)).resolve_right (by simp [hroomy])
  exact ⟨hleads, hdepth, hresolved 29 (by decide), hresolved 30 (by decide)⟩

end PolicySchema
