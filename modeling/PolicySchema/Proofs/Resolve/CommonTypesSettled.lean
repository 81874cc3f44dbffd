import PolicySchema.Proofs.Resolve.Framing
import PolicySchema.Proofs.Resolve.BodyWalks

/-!
# Common types are settled

Walking the common types one after another walks the body of each of them once, and leaves all of
them settled (`resolveAll_settles`). From then on nothing that is known of them changes, and types
are resolved from what is known alone.
-/

namespace PolicySchema.Resolve

open Resolving

variable {α β : Type} {index : Index} {extensions : Extensions} {before : Nat} {names : List Name}
  {front : Name → Prop}

/-! ### Once all are settled -/

/-- Puts the noted outcome of a common type in place of a reference. What is done where there is
none, since the body is left or is being walked, is up to `meet`. -/
def inlineSettled (meet : Inliner) : Inliner := fun origin n ↦ do
  match (← get).common.find? n with
  | some (.settled outcome) => placeInside origin outcome
  | _ => meet origin n

/-- A step that keeps track from any state in which every body is settled. -/
abbrev Rests (index : Index) (before : Nat) (x : Resolving α) : Prop :=
  KeepsTrack index before [] (fun _ ↦ False) x fun _ ↦ True

section

variable {origin : Origin} {ns : Option Name}

private theorem tracks_inline (meet : Inliner) {n : Name}
    (hn : (index.commonTypes.find? n).isSome = true) :
    Tracks index before [] (fun _ ↦ False) (inline index extensions origin n)
      (inlineSettled meet origin n) (·.isSome = true) := by
  unfold inline inlineUpTo inlineSettled
  apply Tracks.get_bind
  intro s
  apply TracksAt.of_tracked
  intro hs
  rcases hfound : s.common.find? n with _ | _ | _ | outcome
  · simp [← hs.known, hfound] at hn
  · cases hs.waiting n hfound
  · exact (hs.walking n hfound).elim
  · exact ⟨keepsTrackAt_placeInside hfound, fun _ ↦ rfl⟩

private theorem tracks_resolveType (meet : Inliner) (t : TypeExpr TypeRef) :
    Tracks index before [] (fun _ ↦ False) (resolveType index extensions ns origin t)
      (resolveWith (resolveRef index extensions (inlineSettled meet) ns origin) origin t)
      (·.isSome = true) :=
  tracks_resolveWith (tracks_resolveRef fun _ hn ↦ tracks_inline meet hn) t

private theorem rests_bind {x : Resolving α} {f : α → Resolving β} (hx : Rests index before x)
    (hf : ∀ a, Rests index before (f a)) : Rests index before (x >>= f) :=
  hx.bind fun a ↦ (hf a).imp fun _ _ _ _ ↦ trivial

private theorem rests_pure (a : α) : Rests index before (pure a) := .pure fun _ ↦ trivial

private theorem rests_report (cause : Cause) (location : Option Location) :
    Rests index before (report cause location) := keepsTrack_report _ _ _

private theorem rests_resolveOptionalType (t : Option (TypeExpr TypeRef)) :
    Rests index before (resolveOptionalType index extensions ns origin t) := by
  cases t with
  | none => exact rests_pure _
  | some t =>
    exact (tracks_resolveType (fun _ _ ↦ pure none) t).keepsTrack.imp fun _ _ _ ↦ trivial

private theorem rests_resolveEntityType (name : Name) (d : Placed EntityType) :
    Rests index before (resolveEntityType index extensions name d) := by
  unfold resolveEntityType
  dsimp only
  split
  · apply rests_bind (.resolveParents fun _ ↦ rests_report _ _)
    intro parents
    apply rests_bind (rests_resolveOptionalType _)
    intro shape
    apply rests_bind (rests_resolveOptionalType _)
    intro tags
    exact rests_pure _
  · exact rests_pure _

private theorem rests_requireEntity (n : Name) :
    Rests index before (requireEntity index origin n) := by
  unfold requireEntity
  split
  · exact rests_pure _
  · apply keepsTrack_reject

private theorem rests_resolveContext (uid : Uid) (context : Option (TypeExpr TypeRef)) :
    Rests index before (resolveContext index extensions uid ns origin context) := by
  apply rests_bind (rests_resolveOptionalType context)
  intro result
  split
  · exact rests_pure _
  · split
    · exact rests_pure _
    · exact rests_bind (rests_report _ _) fun _ ↦ rests_pure _

private theorem rests_resolveAction (uid : Uid) (d : Placed Action) :
    Rests index before (resolveAction index extensions uid d) := by
  apply rests_bind (.resolveActionParents fun _ ↦ rests_report _ _)
  intro parents
  refine rests_bind ?_ fun _ ↦ rests_pure _
  cases d.declaration.body.appliesTo with
  | none => exact rests_pure _
  | some block =>
    apply rests_bind (.resolveNames rests_requireEntity)
    intro principals
    apply rests_bind (.resolveNames rests_requireEntity)
    intro resources
    apply rests_bind (rests_resolveContext uid block.context)
    intro context
    exact rests_pure _

private theorem rests_resolveEntries {κ : Type} {f : κ → α → Resolving β}
    (hf : ∀ k a, Rests index before (f k a)) (entries : List (κ × α)) :
    Rests index before (resolveEntries f entries) := by
  induction entries with
  | nil => exact rests_pure _
  | cons e rest ih => exact rests_bind (hf e.1 e.2) fun _ ↦ rests_bind ih fun _ ↦ rests_pure _

private theorem rests_closeHierarchies (entityTypes : Table Name ResolvedEntityType)
    (actions : Table Uid ResolvedAction) :
    Rests index before (closeHierarchies index entityTypes actions) :=
  .closeHierarchies (fun _ _ ↦ rests_report _ _) fun _ _ ↦ rests_report _ _

end

/-! ### Whole runs -/

/-- Something is known of the declared common types and of no others: what came of their bodies. -/
structure Settled (index : Index) (s : State) : Prop where
  declared : ∀ n, (s.common.find? n).isSome = true ↔ n ∈ index.commonTypes.keys
  settled : ∀ n progress, s.common.find? n = some progress → ∃ outcome, progress = .settled outcome

/-- The same is known of the common types in both states, the same bodies were walked, and no
problem is lost. -/
structure State.SameNotes (s s' : State) : Prop where
  common : s'.common = s.common
  walked : s'.walked = s.walked
  problems : s.problems.length ≤ s'.problems.length

/-- From any state with the notes of `s`, what is done after the common types were walked keeps the
notes. Types are resolved from noted outcomes alone, whatever would be done at a body that is left
or being walked. -/
structure KeepsNotes (index : Index) (extensions : Extensions) (s : State) : Prop where
  types : ∀ meet ns origin t s', s.SameNotes s' →
    s.SameNotes ((resolveType index extensions ns origin t).run s').2 ∧
    (resolveWith (resolveRef index extensions (inlineSettled meet) ns origin) origin t).run s' =
      (resolveType index extensions ns origin t).run s'
  entityTypes : ∀ entries s', s.SameNotes s' →
    s.SameNotes ((resolveEntries (resolveEntityType index extensions) entries).run s').2
  actions : ∀ entries s', s.SameNotes s' →
    s.SameNotes ((resolveEntries (resolveAction index extensions) entries).run s').2
  closing : ∀ entityTypes actions s', s.SameNotes s' →
    s.SameNotes ((closeHierarchies index entityTypes actions).run s').2

section

variable {s s' : State}

private theorem tracked_start (problems : List Problem) :
    Tracked index problems.length index.commonTypes.keys (fun _ ↦ False)
      (.start [] index problems) where
  known n := by simp [State.start, Table.find?_map]
  waiting n hn := by
    rw [Table.mem_keys_iff]
    simp only [State.start, Table.find?_map, Option.map_eq_some_iff] at hn
    obtain ⟨d, hd, -⟩ := hn
    simp [hd]
  walking _ hn := nomatch State.eq_waiting_of_start hn
  walked n := by simp [State.start, Table.find?_map]
  nodup := List.nodup_nil
  failed _ hn := nomatch State.eq_waiting_of_start hn
  before_le := Nat.le_refl _
  roomy _ _ := rfl

-- The declared common types are walked one after another, and it makes no difference what is done
-- inside more bodies than there are common types.
private theorem tracksAt_start (index : Index) (extensions : Extensions) (problems : List Problem)
    (base : Inliner) {levels : Nat} (hlevels : index.commonTypes.size < levels) :
    TracksAt index problems.length index.commonTypes.keys (fun _ ↦ False) (.start [] index problems)
      (resolveCommonTypes index extensions index.commonTypes.keys)
      (inlineAll (unrolled index extensions base levels) index.commonTypes.keys)
      fun _ ↦ True := by
  have hsize : index.commonTypes.keys.length = index.commonTypes.size := List.length_map _
  exact tracks_resolveCommonTypes base _ (fun _ ↦ Table.mem_keys_iff.mp) (Nat.le_of_eq hsize)
    (hsize.symm ▸ hlevels) _

private theorem exists_settled_resolveCommonTypes (order : List Name)
    (horder : ∀ n ∈ order, (index.commonTypes.find? n).isSome = true)
    (hsize : names.length ≤ index.commonTypes.size)
    (hs : Tracked index before names (fun _ ↦ False) s) :
    ∀ n ∈ order, ∃ outcome, ((resolveCommonTypes index extensions order).run s).2.common.find? n =
      some (.settled outcome) := by
  let base : Inliner := fun _ _ ↦ pure none
  induction order generalizing s with
  | nil => exact nofun
  | cons n rest ih =>
    obtain ⟨hn, hrest⟩ := List.forall_mem_cons.mp horder
    have hinline : Tracks index before names (fun _ ↦ False)
        (inlineUpTo index extensions index.commonTypes.size (commonOrigin n none) n) _ _ :=
      tracks_inlineUpTo base hsize (Nat.lt_succ_self _) hn
    have hrests : Tracks index before names (fun _ ↦ False)
        (resolveCommonTypes index extensions rest) _ _ :=
      tracks_resolveCommonTypes base rest hrest hsize (Nat.lt_succ_self _)
    obtain ⟨hfirst, -⟩ := (hinline s).keeps.rel hs
    obtain ⟨-, hothers⟩ := (hrests _).keeps.rel hfirst
    refine List.forall_mem_cons.mpr ⟨?_, ih hrest hfirst⟩
    -- The first one is known by then, and neither left nor being walked.
    obtain ⟨progress, hprogress⟩ := Option.isSome_iff_exists.mp ((hfirst.known n).trans hn)
    cases progress with
    | waiting =>
      obtain ⟨d, hd⟩ := Option.isSome_iff_exists.mp hn
      exact absurd hprogress (not_waiting_inline _ hd s)
    | walking => exact (hfirst.walking n hprogress).elim
    | settled outcome => exact ⟨outcome, hothers.settled n outcome hprogress⟩

/-- Once the declared common types are walked one after another, none of them is left. -/
theorem tracked_resolveCommonTypes (index : Index) (extensions : Extensions)
    (problems : List Problem) :
    Tracked index problems.length [] (fun _ ↦ False)
      ((resolveCommonTypes index extensions index.commonTypes.keys).run
        (.start [] index problems)).2 := by
  obtain ⟨htracked, -⟩ := (tracksAt_start index extensions problems (fun _ _ ↦ pure none)
    (Nat.lt_succ_self _)).keeps.rel (tracked_start problems)
  refine { htracked with waiting := fun n hn ↦ ?_ }
  obtain ⟨outcome, houtcome⟩ := exists_settled_resolveCommonTypes _
    (fun _ ↦ Table.mem_keys_iff.mp) (Nat.le_of_eq (List.length_map _)) (tracked_start problems) n
    (htracked.waiting n hn)
  rw [houtcome] at hn
  cases hn

private theorem Tracked.settled (h : Tracked index before [] (fun _ ↦ False) s) :
    Settled index s where
  declared n := by rw [h.known, Table.mem_keys_iff]
  settled n progress hn := by
    cases progress with
    | waiting => cases h.waiting n hn
    | walking => exact (h.walking n hn).elim
    | settled outcome => exact ⟨outcome, rfl⟩

/-- Once all are settled, each body was walked once. -/
theorem Tracked.walked_perm (h : Tracked index before [] (fun _ ↦ False) s) :
    s.walked.Perm index.commonTypes.keys := by
  refine (List.perm_ext_iff_of_nodup h.nodup index.commonTypes.keys_nodup).mpr fun n ↦ ?_
  rw [h.walked, ← h.settled.declared, Option.isSome_iff_exists]
  refine exists_congr fun progress ↦ and_iff_left_of_imp ?_
  rintro hprogress rfl
  cases h.waiting n hprogress

private theorem Tracked.of_sameNotes (h : Tracked index before [] (fun _ ↦ False) s)
    (hs : s.SameNotes s') : Tracked index before [] (fun _ ↦ False) s' :=
  h.of_common_eq hs.common hs.walked hs.problems fun n hn ↦ nomatch h.waiting n hn

private theorem State.Grows.sameNotes (h : s.Grows s')
    (hs : Tracked index before [] (fun _ ↦ False) s)
    (hs' : Tracked index before [] (fun _ ↦ False) s') : s.SameNotes s' where
  common := by
    apply Table.ext_find?
    intro n
    cases hn : s.common.find? n with
    | none =>
      have hnone : (s'.common.find? n).isSome = false := by rw [hs'.known, ← hs.known, hn]; rfl
      simpa using hnone
    | some progress =>
      obtain ⟨outcome, rfl⟩ := hs.settled.settled n progress hn
      exact h.settled n outcome hn
  walked := (h.walked.eq_of_length (hs.walked_perm.trans hs'.walked_perm.symm).length_eq).symm
  problems := h.problems

/-- Each state has the notes of itself. -/
theorem State.SameNotes.refl (s : State) : s.SameNotes s := ⟨rfl, rfl, Nat.le_refl _⟩

/-- Having the same notes is transitive. -/
theorem State.SameNotes.trans {s'' : State} (h : s.SameNotes s') (h' : s'.SameNotes s'') :
    s.SameNotes s'' where
  common := h'.common.trans h.common
  walked := h'.walked.trans h.walked
  problems := Nat.le_trans h.problems h'.problems

private theorem Tracked.sameNotes (h : Tracked index before [] (fun _ ↦ False) s)
    (hs : s.SameNotes s') {x : Resolving α} {Q : α → Prop}
    (hx : KeepsTrack index before [] (fun _ ↦ False) x Q) : s.SameNotes (x.run s').2 := by
  have hs' := h.of_sameNotes hs
  obtain ⟨hafter, hgrows⟩ := (hx s').rel hs'
  exact hs.trans (hgrows.sameNotes hs' hafter)

private theorem KeepsNotes.resolveIndex {order : List Name}
    (h : KeepsNotes index extensions ((resolveCommonTypes index extensions order).run s).2) :
    ((resolveCommonTypes index extensions order).run s).2.SameNotes
      ((resolveIndex index extensions order).run s).2 := by
  rw [Resolve.resolveIndex, run_bind, run_bind, run_bind]
  have hentities := h.entityTypes index.entityTypes.entries _ (.refl _)
  have hactions := h.actions index.actions.entries _ hentities
  exact h.closing _ _ _ hactions

/-- Where all are settled, no later step changes what is known. -/
theorem Tracked.keepsNotes (h : Tracked index before [] (fun _ ↦ False) s) :
    KeepsNotes index extensions s where
  types meet _ _ t s' hs' :=
    ⟨h.sameNotes hs' (tracks_resolveType meet t).keepsTrack,
      (tracks_resolveType meet t s').same (h.of_sameNotes hs')⟩
  entityTypes entries _ hs' :=
    h.sameNotes hs' (rests_resolveEntries rests_resolveEntityType entries)
  actions entries _ hs' := h.sameNotes hs' (rests_resolveEntries rests_resolveAction entries)
  closing entityTypes actions _ hs' := h.sameNotes hs' (rests_closeHierarchies entityTypes actions)

end

end PolicySchema.Resolve

namespace PolicySchema

open Resolve

/-- Walking the common types of any schemas, recursive or not, comes to an end by itself: what would
be done inside more bodies than there are common types is never done. It walks the body of each of
them once and leaves all of them settled, and one without a type only if a problem was found on the
way. What is done after it keeps what is known, and walks no body again. -/
theorem resolveAll_settles (extensions : Extensions) (schemas : List Schema) :
    let index := (Index.collect schemas).1
    let start := State.start [] index (Index.collect schemas).2
    let s := ((resolveCommonTypes index extensions index.commonTypes.keys).run start).2
    (∀ base levels, index.commonTypes.size < levels →
      ((inlineAll (unrolled index extensions base levels) index.commonTypes.keys).run start).2 =
        s) ∧
    s.walked.Perm index.commonTypes.keys ∧
    Settled index s ∧
    (∀ n, s.common.find? n = some (.settled none) →
      ∃ more, more ≠ [] ∧ s.problems = start.problems ++ more) ∧
    KeepsNotes index extensions s ∧
    s.SameNotes ((resolveIndex index extensions index.commonTypes.keys).run start).2 := by
  intro index start s
  have hsettled : Tracked index start.problems.length [] (fun _ ↦ False) s :=
    tracked_resolveCommonTypes _ _ _
  have hkeeps : KeepsNotes index extensions s := hsettled.keepsNotes
  refine ⟨fun base levels hlevels ↦ ?_, hsettled.walked_perm, hsettled.settled, fun n hn ↦ ?_,
    hkeeps, hkeeps.resolveIndex⟩
  · exact congrArg Prod.snd ((tracksAt_start index extensions _ base hlevels).same
      (tracked_start _))
  · have hframed : Framed 0 (resolveCommonTypes index extensions index.commonTypes.keys) _ :=
      framed_resolveCommonTypes _
    obtain ⟨more, hmore, -⟩ := (hframed start).rel.problems
    refine ⟨more, ?_, hmore⟩
    rintro rfl
    have hlonger : start.problems.length < s.problems.length := hsettled.failed n hn
    rw [show s.problems = start.problems ++ [] from hmore] at hlonger
    simp at hlonger

-- Two common types that hold each other, where no entity type has the name of one, and a third one
-- that is not used.
private def entangled : Schema :=
  let left : Identifier := ⟨"Left", by decide⟩
  let right : Identifier := ⟨"Right", by decide⟩
  let holding (n : Identifier) : TypeExpr TypeRef :=
    .record (.cons "held" (.leaf (.entityOrCommon (.bare n))) false ∅ .nil) ∅
  ⟨.ofList [(none, { Namespace.empty with
    commonTypes := .ofList [
      (left, ⟨holding right, ∅, none⟩),
      (right, ⟨holding left, ∅, none⟩),
      (⟨"Idle", by decide⟩, ⟨.set (.leaf (.primitive .long)), ∅, none⟩)] })]⟩

/-- Common types that hold each other are walked once, inside one another. Neither of the two gives
a type, since one of them refers to an entity type that is not declared, and the third one does. -/
theorem resolveAll_settles_entangled :
    let index := (Index.collect [entangled]).1
    let start := State.start [] index []
    let s := ((resolveCommonTypes index .all index.commonTypes.keys).run start).2
    index.commonTypes.size = 3 ∧ s.walked.length = 3 ∧
      ((inlineAll (unrolled index .all (fun _ _ ↦ pure none) 4) index.commonTypes.keys).run
        start).2 = s ∧
      s.common.find? (.bare ⟨"Left", by decide⟩) = some (.settled none) ∧
      (∃ more, more ≠ [] ∧ s.problems = [] ++ more) ∧
      s.common.find? (.bare ⟨"Idle", by decide⟩) =
        some (.settled (some (.set (.leaf (.primitive .long)), 1))) ∧
      s.SameNotes ((resolveIndex index .all index.commonTypes.keys).run start).2 := by
  intro index start s
  obtain ⟨hends, hwalked, -, hfailed, -, hnotes⟩ := resolveAll_settles .all [entangled]
  have hsize : index.commonTypes.size = 3 := by decide +kernel
  have hroom : index.commonTypes.size < 4 := hsize ▸ Nat.lt_succ_self 3
  have hleft : s.common.find? (.bare ⟨"Left", by decide⟩) = some (.settled none) := by
    decide +kernel
  have hlength : index.commonTypes.keys.length = 3 := by decide +kernel
  have hcollect : (Index.collect [entangled]).2 = [] := by decide +kernel
  rw [hcollect] at hends hwalked hfailed hnotes
  exact ⟨hsize, hwalked.length_eq.trans hlength, hends _ 4 hroom, hleft, hfailed _ hleft,
    by decide +kernel, hnotes⟩

end PolicySchema
