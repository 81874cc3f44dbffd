import PolicySchema.Proofs.Resolve.Inlining

/-!
# Inlining comes to an end

Inlining has no argument that gets smaller by itself: it follows names through what is known of the
common types, and is cut off after as many bodies inside one another as there are common types. It
is never cut off there (`tracks_inlineUpTo`): every body that is walked is one that was left, so
that with each body fewer are left. On the way it keeps track of which bodies were walked, and of
whether one without a type had a problem.
-/

namespace PolicySchema.Resolve

open Resolving

variable {α β : Type}

/-! ### Inlining without a bound -/

/-- Puts a declared common type in place of a reference. A body that is left is walked with `inner`
for the references in it. -/
def inlineStep (index : Index) (extensions : Extensions) (inner : Inliner) : Inliner :=
  fun origin n ↦ do
    match (← get).common.find? n with
    | none => pure none
    | some .walking => entityAtom index origin n
    | some (.settled outcome) => placeInside origin outcome
    | some .waiting =>
      match index.commonTypes.find? n with
      | none => pure none
      | some body =>
        let outcome ← walkBody index extensions inner n body
        placeInside origin outcome

/-- Inlining, with bodies walked inside one another, in which a reference that stands inside the
given number of bodies is resolved by `base`. -/
def unrolled (index : Index) (extensions : Extensions) (base : Inliner) : Nat → Inliner
  | 0 => base
  | steps + 1 => inlineStep index extensions (unrolled index extensions base steps)

/-- Puts the common types in place of references to them, one after another. -/
def inlineAll (inner : Inliner) : List Name → Resolving Unit
  | [] => pure ()
  | n :: rest => do
    let _ ← inner (commonOrigin n none) n
    inlineAll inner rest

/-! ### What is kept track of -/

/-- Something is known of each declared common type, and of no other. Only the bodies of those in
`names` are left, only those of the ones in `front` are being walked, and all others are noted as
walked, once each. If a body gave no type then there are more than `before` problems. As long as a
body is left, there is enough stack. -/
structure Tracked (index : Index) (before : Nat) (names : List Name) (front : Name → Prop)
    (s : State) : Prop where
  known : ∀ n, (s.common.find? n).isSome = (index.commonTypes.find? n).isSome
  waiting : ∀ n, s.common.find? n = some .waiting → n ∈ names
  walking : ∀ n, s.common.find? n = some .walking → front n
  walked : ∀ n, n ∈ s.walked ↔
    ∃ progress, s.common.find? n = some progress ∧ progress ≠ .waiting
  nodup : s.walked.Nodup
  failed : ∀ n, s.common.find? n = some (.settled none) → before < s.problems.length
  before_le : before ≤ s.problems.length
  roomy : ∀ n, s.common.find? n = some .waiting → s.checks = []

/-- No outcome, walk or problem that was noted is lost. -/
structure State.Grows (s s' : State) : Prop where
  settled : ∀ n outcome, s.common.find? n = some (.settled outcome) →
    s'.common.find? n = some (.settled outcome)
  walked : s.walked <:+ s'.walked
  problems : s.problems.length ≤ s'.problems.length

/-- What is not lost on two ways is not lost on both together. -/
theorem State.Grows.trans {s s' s'' : State} (h : s.Grows s') (h' : s'.Grows s'') :
    s.Grows s'' where
  settled n outcome hn := h'.settled n outcome (h.settled n outcome hn)
  walked := h.walked.trans h'.walked
  problems := Nat.le_trans h.problems h'.problems

/-- Nothing is lost by reporting problems. -/
theorem State.Grows.of_common_eq {s s' : State} (hcommon : s'.common = s.common)
    (hwalked : s'.walked = s.walked) (hproblems : s.problems.length ≤ s'.problems.length) :
    s.Grows s' where
  settled _ _ hn := hcommon ▸ hn
  walked := hwalked ▸ List.suffix_rfl
  problems := hproblems

variable {index : Index} {extensions : Extensions} {before : Nat} {names : List Name}
  {front : Name → Prop}

/-- A state with as many problems or more, in which the same is known, is tracked as well. -/
theorem Tracked.of_common_eq {s s' : State} (h : Tracked index before names front s)
    (hcommon : s'.common = s.common) (hwalked : s'.walked = s.walked)
    (hproblems : s.problems.length ≤ s'.problems.length)
    (hchecks : ∀ n, s.common.find? n = some .waiting → s'.checks = []) :
    Tracked index before names front s' where
  known n := by rw [hcommon, h.known]
  waiting n hn := h.waiting n (hcommon ▸ hn)
  walking n hn := h.walking n (hcommon ▸ hn)
  walked n := by rw [hcommon, hwalked, h.walked]
  nodup := hwalked ▸ h.nodup
  failed n hn := Nat.lt_of_lt_of_le (h.failed n (hcommon ▸ hn)) hproblems
  before_le := Nat.le_trans h.before_le hproblems
  roomy n hn := hchecks n (hcommon ▸ hn)

/-- Steps that lead from a tracked state to a tracked state in which nothing is lost. A property is
owed to their results where no more than `before` problems are there in the end. -/
def tracking (index : Index) (before : Nat) (names : List Name) (front : Name → Prop) : Kind where
  given := True
  rel s s' := Tracked index before names front s → Tracked index before names front s' ∧ s.Grows s'
  owes s s' := Tracked index before names front s ∧ s'.problems.length ≤ before
  given_of_owes _ := trivial
  refl _ hs := ⟨hs, .of_common_eq rfl rfl (Nat.le_refl _)⟩
  trans h h' hs := ⟨(h' (h hs).1).1, (h hs).2.trans (h' (h hs).1).2⟩
  owes_first h h' := fun ⟨hs, hend⟩ ↦ ⟨hs, Nat.le_trans (h' (h hs).1).2.problems hend⟩
  owes_second h _ := fun ⟨hs, hend⟩ ↦ ⟨(h hs).1, hend⟩
  checked _ hs := ⟨hs.of_common_eq rfl rfl (Nat.le_refl _)
    fun n hn ↦ congrArg List.tail (hs.roomy n hn), .of_common_eq rfl rfl (Nat.le_refl _)⟩

/-- The step keeps track, and its result has the property if no more than `before` problems are
there in the end. -/
abbrev KeepsTrack (index : Index) (before : Nat) (names : List Name) (front : Name → Prop)
    (x : Resolving α) (Q : α → Prop) : Prop :=
  (tracking index before names front).Triple x Q

/-- From the state `s`, the first step keeps track, and both do the same if this is tracked. -/
structure TracksAt (index : Index) (before : Nat) (names : List Name) (front : Name → Prop)
    (s : State) (x y : Resolving α) (Q : α → Prop) : Prop where
  keeps : (tracking index before names front).TripleAt s x Q
  same : Tracked index before names front s → y.run s = x.run s

/-- From any state, the first step keeps track, and from a tracked one both do the same. -/
def Tracks (index : Index) (before : Nat) (names : List Name) (front : Name → Prop)
    (x y : Resolving α) (Q : α → Prop) : Prop :=
  ∀ s, TracksAt index before names front s x y Q

/-! ### Rules -/

/-- The second steps run in the state that the first ones lead to. -/
theorem TracksAt.bind {s : State} {x y : Resolving α} {Q : α → Prop} {f g : α → Resolving β}
    {R : β → Prop} (hx : TracksAt index before names front s x y Q)
    (hf : ∀ a, Tracks index before names front (f a) (g a) fun b ↦ Q a → R b) :
    TracksAt index before names front s (x >>= f) (y >>= g) R where
  keeps := hx.keeps.bind fun a s ↦ (hf a s).keeps
  same hs := by
    rw [run_bind, run_bind, hx.same hs]
    exact (hf _ _).same (hx.keeps.rel hs).1

/-- Nothing is asked of steps from a state that is not tracked. -/
theorem TracksAt.of_tracked {s : State} {x y : Resolving α} {Q : α → Prop}
    (h : Tracked index before names front s → TracksAt index before names front s x y Q) :
    TracksAt index before names front s x y Q where
  keeps := ⟨fun hs ↦ (h hs).keeps.rel hs, fun howes ↦ (h howes.1).keeps.result howes⟩
  same hs := (h hs).same hs

namespace Tracks

variable {x y : Resolving α} {Q R : α → Prop}

/-- A step that keeps track does the same as itself. -/
theorem of_keepsTrack (h : KeepsTrack index before names front x Q) :
    Tracks index before names front x x Q :=
  fun s ↦ ⟨h s, fun _ ↦ rfl⟩

/-- The first of the two steps keeps track by itself. -/
theorem keepsTrack (h : Tracks index before names front x y Q) :
    KeepsTrack index before names front x Q :=
  fun s ↦ (h s).keeps

/-- A weaker property is owed as well. -/
theorem imp (h : Tracks index before names front x y Q) (hQ : ∀ a, Q a → R a) :
    Tracks index before names front x y R :=
  fun s ↦ ⟨(h s).keeps.imp fun _ ↦ hQ, (h s).same⟩

/-- Steps that only give a result have to give the right one. -/
theorem pure {a : α} (h : Q a) :
    Tracks index before names front (Pure.pure a : Resolving α) (Pure.pure a) Q :=
  .of_keepsTrack (.pure fun _ ↦ h)

/-- The second steps may rely on the result of the first. -/
theorem bind {f g : α → Resolving β} {R : β → Prop} (hx : Tracks index before names front x y Q)
    (hf : ∀ a, Tracks index before names front (f a) (g a) fun b ↦ Q a → R b) :
    Tracks index before names front (x >>= f) (y >>= g) R :=
  fun s ↦ (hx s).bind hf

/-- Steps that read the state go on from this state. -/
theorem get_bind {f g : State → Resolving β} {R : β → Prop}
    (h : ∀ s, TracksAt index before names front s (f s) (g s) R) :
    Tracks index before names front (get >>= f) (get >>= g) R :=
  fun s ↦ ⟨⟨(h s).keeps.rel, (h s).keeps.result⟩, (h s).same⟩

end Tracks

/-! ### Problems -/

private theorem KeepsTrack.of_run {x : Resolving α} {Q : α → Prop}
    (h : ∀ s, ∃ depth problems, (x.run s).2 = { s with depth, problems } ∧
      s.problems.length ≤ problems.length ∧
        (problems.length ≤ s.problems.length → Q (x.run s).1)) :
    KeepsTrack index before names front x Q := by
  intro s
  obtain ⟨depth, problems, hrun, hmore, hQ⟩ := h s
  constructor <;> rw [hrun]
  · exact fun hs ↦ ⟨hs.of_common_eq rfl rfl hmore hs.roomy, .of_common_eq rfl rfl hmore⟩
  · exact fun ⟨hs, hend⟩ ↦ hQ (Nat.le_trans hend hs.before_le)

/-- After a reported problem, there are more than before. -/
theorem keepsTrack_report (cause : Cause) (location : Option Location) (Q : Unit → Prop) :
    KeepsTrack index before names front (report cause location) Q := by
  apply KeepsTrack.of_run
  intro s
  refine ⟨s.depth, s.problems ++ [⟨cause, location⟩], rfl, ?_, fun hend ↦ ?_⟩
  · simp
  · rw [List.length_append] at hend
    exact absurd hend (Nat.not_succ_le_self _)

/-- A rejected step may give anything. -/
theorem keepsTrack_reject (cause : Cause) (origin : Origin) (Q : Option α → Prop) :
    KeepsTrack index before names front (reject cause origin) Q :=
  .reject (keepsTrack_report cause origin.location fun _ ↦ False) False.elim

/-! ### Sets and records -/

section

variable {origin : Origin}

private theorem keepsTrack_setDepth (depth : Nat) :
    KeepsTrack index before names front (setDepth depth) fun _ ↦ True :=
  .of_run fun s ↦ ⟨depth, s.problems, rfl, Nat.le_refl _, fun _ ↦ trivial⟩

private theorem keepsTrack_closeLevel :
    KeepsTrack index before names front closeLevel fun _ ↦ True :=
  .of_run fun s ↦ ⟨s.depth - 1, s.problems, rfl, Nat.le_refl _, fun _ ↦ trivial⟩

private theorem keepsTrack_withinDepth (origin : Origin) (depth : Nat) :
    KeepsTrack index before names front (withinDepth origin depth) (· = true) :=
  (Kind.Triple.withinDepth (keepsTrack_report _ _ fun _ ↦ False)).imp fun _ ok h ↦
    by simpa using h.1

private theorem keepsTrack_openLevel :
    KeepsTrack index before names front (openLevel origin) (· = true) := by
  apply Kind.Triple.get_bind
  intro s
  apply (keepsTrack_withinDepth origin _ s).bind
  intro ok
  split
  · exact (keepsTrack_setDepth _).bind fun _ ↦ .pure fun _ _ _ ↦ rfl
  · next hfull => exact .pure fun _ hok ↦ absurd hok hfull

variable {leaf leaf' : TypeRef → Resolving (Option ResolvedType)}

mutual

/-- The walk of a type tracks the walk of the same type when its leaves do. -/
theorem tracks_resolveWith
    (hleaf : ∀ r, Tracks index before names front (leaf r) (leaf' r) (·.isSome = true))
    (t : TypeExpr TypeRef) :
    Tracks index before names front (resolveWith leaf origin t) (resolveWith leaf' origin t)
      (·.isSome = true) := by
  match t with
  | .leaf r => exact hleaf r
  | .set element =>
    apply (Tracks.of_keepsTrack keepsTrack_openLevel).bind
    intro opened
    split
    · apply (tracks_resolveWith hleaf element).bind
      intro result
      apply (Tracks.of_keepsTrack keepsTrack_closeLevel).bind
      intro _
      apply Tracks.pure
      intro _ hresult _
      rwa [Option.isSome_map]
    · next hclosed => exact .pure fun hopened ↦ absurd hopened hclosed
  | .record fields notes =>
    apply (Tracks.of_keepsTrack keepsTrack_openLevel).bind
    intro opened
    split
    · apply (tracks_resolveFieldsWith hleaf fields).bind
      intro result
      apply (Tracks.of_keepsTrack keepsTrack_closeLevel).bind
      intro _
      apply Tracks.pure
      intro _ hresult _
      rwa [Option.isSome_map]
    · next hclosed => exact .pure fun hopened ↦ absurd hopened hclosed

private theorem tracks_resolveFieldsWith
    (hleaf : ∀ r, Tracks index before names front (leaf r) (leaf' r) (·.isSome = true))
    (fields : Fields TypeRef) :
    Tracks index before names front (resolveFieldsWith leaf origin fields)
      (resolveFieldsWith leaf' origin fields) (·.isSome = true) := by
  match fields with
  | .nil => exact .pure rfl
  | .cons key t required notes rest =>
    apply (tracks_resolveWith hleaf t).bind
    intro result
    apply (tracks_resolveFieldsWith hleaf rest).bind
    intro result'
    split
    · exact .pure fun _ _ ↦ rfl
    · next hnone =>
      apply Tracks.pure
      intro hrest hfirst
      obtain ⟨u', rfl⟩ := Option.isSome_iff_exists.mp hrest
      obtain ⟨u, rfl⟩ := Option.isSome_iff_exists.mp hfirst
      exact absurd rfl (hnone u u' rfl)

end

end

/-! ### References -/

section

variable {origin : Origin} {ns : Option Name} {n : Name}

private theorem keepsTrack_entityAtom :
    KeepsTrack index before names front (entityAtom index origin n) (·.isSome = true) := by
  by_cases hn : index.known.contains n = true
  · rw [entityAtom_of_known hn]
    exact .pure fun _ ↦ rfl
  · rw [entityAtom_of_not_known hn]
    apply keepsTrack_reject

private theorem keepsTrack_extensionAtom (id : Identifier) :
    KeepsTrack index before names front (extensionAtom extensions origin id) (·.isSome = true) := by
  unfold extensionAtom
  split
  · apply keepsTrack_reject
  · split
    · apply keepsTrack_reject
    · exact .pure fun _ ↦ rfl

/-- A reference is looked up as a common type only if this one is declared. -/
theorem Index.isSome_of_target_common {r : TypeRef} (h : index.target ns r = .common n) :
    (index.commonTypes.find? n).isSome = true := by
  have hname {id : Identifier} (h : index.commonTypeName? ns id = some n) :
      index.commonTypes.contains n = true := by
    unfold Index.commonTypeName? at h
    grind
  change index.commonTypes.contains n = true
  cases r <;> grind [Index.target, Index.builtinTarget, Index.bareTarget, Index.commonType?]

/-- References are resolved alike if common types are inlined alike. -/
theorem tracks_resolveRef {inner inner' : Inliner}
    (hinner : ∀ n, (index.commonTypes.find? n).isSome = true →
      Tracks index before names front (inner origin n) (inner' origin n) (·.isSome = true))
    (r : TypeRef) :
    Tracks index before names front (resolveRef index extensions inner ns origin r)
      (resolveRef index extensions inner' ns origin r) (·.isSome = true) := by
  unfold resolveRef
  split
  · exact .pure rfl
  · next n hn => exact hinner n (Index.isSome_of_target_common hn)
  · exact .of_keepsTrack keepsTrack_entityAtom
  · exact .of_keepsTrack (keepsTrack_extensionAtom _)
  · exact .of_keepsTrack (keepsTrack_reject _ _ _)

/-! ### Common types -/

private theorem keepsTrack_placeInside (outcome : Option (ResolvedType × Nat)) :
    KeepsTrack index before names front (placeInside origin outcome) fun result ↦
      outcome.isSome = true → result.isSome = true := by
  cases outcome with
  | none => exact .pure fun _ ↦ id
  | some found =>
    apply Kind.Triple.get_bind
    intro s
    apply (keepsTrack_withinDepth origin _ s).bind
    intro ok
    split
    · exact .pure fun _ _ _ ↦ rfl
    · next hfull => exact .pure fun _ hok ↦ absurd hok hfull

/-- A noted outcome is put in place. If it is that nothing was found then there was a problem. -/
theorem keepsTrackAt_placeInside {s : State} {outcome : Option (ResolvedType × Nat)}
    (hn : s.common.find? n = some (.settled outcome)) :
    (tracking index before names front).TripleAt s (placeInside origin outcome)
      (·.isSome = true) := by
  have hplace : KeepsTrack index before names front (placeInside origin outcome) _ :=
    keepsTrack_placeInside outcome
  refine ⟨(hplace s).rel, fun howes ↦ (hplace s).result howes (Option.isSome_iff_ne_none.mpr ?_)⟩
  rintro rfl
  obtain ⟨hs, hend⟩ := howes
  exact Nat.not_le_of_lt (hs.failed n hn) (Nat.le_trans ((hplace s).rel hs).2.problems hend)

private theorem Tracked.walk {s s' : State} (h : Tracked index before names front s)
    (hn : s.common.find? n = some .waiting) (hcommon : s'.common = s.common.insert n .walking)
    (hwalked : s'.walked = n :: s.walked) (hproblems : s'.problems = s.problems)
    (hchecks : s'.checks = s.checks.tail) :
    Tracked index before (names.filter (· ≠ n)) (fun m ↦ m = n ∨ front m) s' where
  known m := by
    rw [hcommon, Table.find?_insert, ← h.known m]
    split
    · next hm => simp [hm, hn]
    · rfl
  waiting m hm := by
    rw [hcommon, Table.find?_insert] at hm
    split at hm
    · cases hm
    · next hne => simpa [hne] using h.waiting m hm
  walking m hm := by
    rw [hcommon, Table.find?_insert] at hm
    split at hm
    · next heq => exact .inl heq
    · exact .inr (h.walking m hm)
  walked m := by
    rw [hcommon, hwalked, Table.find?_insert, List.mem_cons, h.walked]
    split
    · next hm => simp [hm]
    · next hm => simp [hm]
  nodup := by
    rw [hwalked, List.nodup_cons, h.walked, hn]
    exact ⟨by simp, h.nodup⟩
  failed m hm := by
    rw [hcommon, Table.find?_insert] at hm
    rw [hproblems]
    split at hm
    · cases hm
    · exact h.failed m hm
  before_le := hproblems ▸ h.before_le
  roomy _ _ := by rw [hchecks, h.roomy n hn, List.tail_nil]

private theorem Tracked.settle {s s' : State}
    (h : Tracked index before (names.filter (· ≠ n)) (fun m ↦ m = n ∨ front m) s)
    (hn : (index.commonTypes.find? n).isSome = true) {outcome : Option (ResolvedType × Nat)}
    (houtcome : s.problems.length ≤ before → outcome.isSome = true)
    (hcommon : s'.common = s.common.insert n (.settled outcome)) (hwalked : s'.walked = s.walked)
    (hproblems : s'.problems = s.problems) (hchecks : s'.checks = s.checks) :
    Tracked index before names front s' where
  known m := by
    rw [hcommon, Table.find?_insert, ← h.known m]
    split
    · next hm => simp [hm, h.known n, hn]
    · rfl
  waiting m hm := by
    rw [hcommon, Table.find?_insert] at hm
    split at hm
    · cases hm
    · exact (List.mem_filter.mp (h.waiting m hm)).1
  walking m hm := by
    rw [hcommon, Table.find?_insert] at hm
    split at hm
    · cases hm
    · next hne => exact (h.walking m hm).resolve_left hne
  walked m := by
    rw [hcommon, hwalked, Table.find?_insert, h.walked]
    split
    · next hm =>
      -- The body is known and not left, so it was noted as walked.
      obtain ⟨progress, hprogress⟩ := Option.isSome_iff_exists.mp ((h.known n).trans hn)
      refine iff_of_true ⟨progress, hm ▸ hprogress, ?_⟩ ⟨_, rfl, nofun⟩
      rintro rfl
      have hleft := h.waiting n hprogress
      simp at hleft
    · rfl
  nodup := hwalked ▸ h.nodup
  failed m hm := by
    rw [hcommon, Table.find?_insert] at hm
    rw [hproblems]
    split at hm
    · cases hm
      exact Nat.lt_of_not_le fun hle ↦ Bool.false_ne_true (houtcome hle)
    · exact h.failed m hm
  before_le := hproblems ▸ h.before_le
  roomy m hm := by
    rw [hcommon, Table.find?_insert] at hm
    split at hm
    · cases hm
    · exact hchecks.trans (h.roomy m hm)

private theorem State.Grows.settle {s s₁ s₂ s' : State} (h : s₁.Grows s₂)
    (hn : s.common.find? n = some .waiting) (hs₁ : s₁.common = s.common.insert n .walking)
    (hwalked₁ : s₁.walked = n :: s.walked) {outcome : Option (ResolvedType × Nat)}
    (hs' : s'.common = s₂.common.insert n (.settled outcome)) (hwalked : s'.walked = s₂.walked)
    (hproblems : s.problems = s₁.problems) (hproblems' : s₁.problems.length ≤ s'.problems.length) :
    s.Grows s' where
  settled m outcome' hm := by
    have hne : m ≠ n := by
      rintro rfl
      rw [hn] at hm
      cases hm
    rw [hs', Table.find?_insert, if_neg hne]
    apply h.settled
    rwa [hs₁, Table.find?_insert, if_neg hne]
  walked := by
    rw [hwalked]
    exact ((List.suffix_cons n s.walked).trans (hwalked₁ ▸ List.suffix_rfl)).trans h.walked
  problems := hproblems ▸ hproblems'

-- Walking a body that was left keeps track, if the references in it do while it is not left any
-- more.
private theorem tracksAt_walkBody {inner inner' : Inliner} {d : Placed (TypeExpr TypeRef)}
    {s : State} (hn : s.common.find? n = some .waiting)
    (hinner : ∀ origin m, (index.commonTypes.find? m).isSome = true →
      Tracks index before (names.filter (· ≠ n)) (fun m ↦ m = n ∨ front m) (inner origin m)
        (inner' origin m) (·.isSome = true)) :
    TracksAt index before names front s (walkBody index extensions inner n d)
      (walkBody index extensions inner' n d) (·.isSome = true) := by
  have hbody : TracksAt index before (names.filter (· ≠ n)) (fun m ↦ m = n ∨ front m) (s.opened n)
      (resolveBody index extensions inner n d) (resolveBody index extensions inner' n d)
      (·.isSome = true) :=
    tracks_resolveWith (tracks_resolveRef (hinner _)) d.declaration.body _
  have hrun (hs : Tracked index before names front s) (inner : Inliner) :
      (walkBody index extensions inner n d).run s = _ := run_walkBody_of_nil (hs.roomy n hn)
  have hopened (hs : Tracked index before names front s) :
      Tracked index before (names.filter (· ≠ n)) (fun m ↦ m = n ∨ front m) (s.opened n) :=
    hs.walk hn rfl rfl rfl rfl
  have houtcome (hs : Tracked index before names front s)
      (hend : ((resolveBody index extensions inner n d).run (s.opened n)).2.problems.length ≤
        before) :
      (withDepth ((resolveBody index extensions inner n d).run (s.opened n)).1).isSome = true :=
    (Option.isSome_map ..).trans (hbody.keeps.result ⟨hopened hs, hend⟩)
  refine ⟨⟨fun hs ↦ ?_, fun ⟨hs, hend⟩ ↦ ?_⟩, fun hs ↦ ?_⟩
  · rw [hrun hs]
    have hdeclared : (index.commonTypes.find? n).isSome = true := by
      rw [← hs.known, hn]
      rfl
    obtain ⟨htracked, hgrows⟩ := hbody.keeps.rel (hopened hs)
    exact ⟨htracked.settle hdeclared (houtcome hs) rfl rfl rfl rfl,
      .settle hgrows hn rfl rfl rfl rfl rfl hgrows.problems⟩
  · rw [hrun hs] at hend ⊢
    exact houtcome hs hend
  · rw [hrun hs, hrun hs, hbody.same (hopened hs)]

-- A common type is inlined alike if the bodies that are left are walked alike, and walked only
-- while there are steps left.
private theorem tracks_inlineUpTo_of_walkBody {base : Inliner} {steps levels : Nat}
    (hn : (index.commonTypes.find? n).isSome = true)
    (hwalk : ∀ s d, Tracked index before names front s → s.common.find? n = some .waiting →
      ∃ rest, steps = rest + 1 ∧ TracksAt index before names front s
        (walkBody index extensions (inlineUpTo index extensions rest) n d)
        (walkBody index extensions (unrolled index extensions base levels) n d)
        (·.isSome = true)) :
    Tracks index before names front (inlineUpTo index extensions steps origin n)
      (unrolled index extensions base (levels + 1) origin n) (·.isSome = true) := by
  unfold inlineUpTo unrolled inlineStep
  apply Tracks.get_bind
  intro s
  apply TracksAt.of_tracked
  intro hs
  rcases hfound : s.common.find? n with _ | _ | _ | outcome
  · simp [← hs.known, hfound] at hn
  · obtain ⟨d, hd⟩ := Option.isSome_iff_exists.mp hn
    obtain ⟨rest, rfl, hwalked⟩ := hwalk s d hs hfound
    rw [hd]
    exact hwalked.bind fun outcome ↦ .of_keepsTrack (keepsTrack_placeInside outcome)
  · exact Tracks.of_keepsTrack keepsTrack_entityAtom s
  · exact ⟨keepsTrackAt_placeInside hfound, fun _ ↦ rfl⟩

/-- A common type is inlined alike whatever is done inside more bodies than may be left, and a body
is walked only if it was left. -/
theorem tracks_inlineUpTo (base : Inliner) {steps levels : Nat} (hsteps : names.length ≤ steps)
    (hlevels : names.length < levels) (hn : (index.commonTypes.find? n).isSome = true) :
    Tracks index before names front (inlineUpTo index extensions steps origin n)
      (unrolled index extensions base levels origin n) (·.isSome = true) := by
  induction steps generalizing levels names front origin n with
  | zero =>
    obtain ⟨levels, rfl⟩ := Nat.exists_eq_add_one.mpr (Nat.zero_lt_of_lt hlevels)
    apply tracks_inlineUpTo_of_walkBody hn
    intro s d hs hleft
    have hmem := hs.waiting n hleft
    simp [List.eq_nil_of_length_eq_zero (Nat.le_zero.mp hsteps)] at hmem
  | succ steps ih =>
    obtain ⟨levels, rfl⟩ := Nat.exists_eq_add_one.mpr (Nat.zero_lt_of_lt hlevels)
    apply tracks_inlineUpTo_of_walkBody hn
    intro s d hs hleft
    -- While this body is walked, one fewer is left.
    have hfewer : (names.filter (· ≠ n)).length < names.length :=
      List.length_filter_lt_length_iff_exists.mpr ⟨n, hs.waiting n hleft, by simp⟩
    exact ⟨steps, rfl, tracksAt_walkBody hleft fun origin m hm ↦
      ih (by omega) (by omega) hm⟩

end

/-! ### All common types -/

/-- Walking declared common types one after another keeps track, whatever would be done inside more
bodies than there are. -/
theorem tracks_resolveCommonTypes (base : Inliner) {levels : Nat} (order : List Name)
    (horder : ∀ n ∈ order, (index.commonTypes.find? n).isSome = true)
    (hsize : names.length ≤ index.commonTypes.size) (hlevels : names.length < levels) :
    Tracks index before names front (resolveCommonTypes index extensions order)
      (inlineAll (unrolled index extensions base levels) order) fun _ ↦ True := by
  induction order with
  | nil => exact .pure trivial
  | cons n rest ih =>
    obtain ⟨hn, hrest⟩ := List.forall_mem_cons.mp horder
    exact (tracks_inlineUpTo base hsize hlevels hn).bind fun _ ↦ (ih hrest).imp fun _ h _ ↦ h

end PolicySchema.Resolve
