import PolicySchema.Proofs.Resolve.Triple
import PolicySchema.Proofs.Resolve.Unfolding

/-!
# What a run keeps

A run keeps what is known of the common types right (`Sound`), walks the bodies of common types
inside one another (`Later`), and never has more bodies left than it has steps (`Ready`). A step
that ends without a problem began without one, keeps all of this, and gives what it should
(`Yields`).
-/

namespace PolicySchema.Resolve

variable {α β : Type}

/-- The declared body of the common type unfolds to the type. -/
def BodyUnfolds (ds : List Declared) (n : Name) (t : ResolvedType) : Prop :=
  ∃ d, .commonType n d ∈ ds ∧ Unfolds ds (IsCyclic ds) d.ns d.declaration.body t

/-- The unfolding of the body of a common type is an unfolding of its name. -/
theorem BodyUnfolds.unfoldsName {ds : List Declared} {n : Name} {t : ResolvedType}
    (h : BodyUnfolds ds n t) : UnfoldsName ds (IsCyclic ds) n t := by
  obtain ⟨d, hd, ht⟩ := h
  exact .body hd ht

/-- What is known of the common types is right. -/
structure Sound (index : Index) (ds : List Declared) (s : State) : Prop where
  reflects : index.Reflects ds
  known : ∀ n, (s.common.find? n).isSome = (index.commonTypes.find? n).isSome
  settled : ∀ n outcome, s.common.find? n = some (.settled outcome) →
    ∃ t, outcome = some (t, t.nestingDepth) ∧ BodyUnfolds ds n t

/-- Noting something right about a declared common type keeps a state sound. -/
theorem Sound.note {index : Index} {ds : List Declared} {s s' : State} (h : Sound index ds s)
    {n : Name} {progress : Progress} (hs : s'.common = s.common.insert n progress)
    (hn : (s.common.find? n).isSome = true)
    (hprogress : ∀ outcome, progress = .settled outcome →
      ∃ t, outcome = some (t, t.nestingDepth) ∧ BodyUnfolds ds n t) :
    Sound index ds s' where
  reflects := h.reflects
  known m := by
    rw [hs, Table.find?_insert, ← h.known m]
    split
    · next hm => simp [hm, hn]
    · rfl
  settled m outcome hm := by
    rw [hs, Table.find?_insert] at hm
    split at hm
    · next heq =>
      subst heq
      exact hprogress outcome (Option.some.inj hm)
    · exact h.settled m outcome hm

/-- The same bodies are being walked as before, and no others are left. -/
structure Later (s s' : State) : Prop where
  walking : ∀ n, s'.common.find? n = some .walking ↔ s.common.find? n = some .walking
  waiting : ∀ n, s'.common.find? n = some .waiting → s.common.find? n = some .waiting

namespace Later

/-- A state in which the same is known of the common types comes no earlier. -/
theorem of_eq {s s' : State} (h : s'.common = s.common) : Later s s' := by
  constructor <;> rw [h]
  · exact fun _ ↦ Iff.rfl
  · exact fun _ hn ↦ hn

/-- A state comes no earlier than itself. -/
theorem refl (s : State) : Later s s := of_eq rfl

/-- Coming later is transitive. -/
theorem trans {s s' s'' : State} (h : Later s s') (h' : Later s' s'') : Later s s'' where
  walking n := (h'.walking n).trans (h.walking n)
  waiting n hn := h.waiting n (h'.waiting n hn)

end Later

/-- At the start of a run, every body is left to be walked. -/
theorem State.eq_waiting_of_start {checks : StackChecks} {index : Index} {problems : List Problem}
    {n : Name} {progress : Progress}
    (h : (State.start checks index problems).common.find? n = some progress) :
    progress = .waiting := by
  simp only [start, Table.find?_map, Option.map_eq_some_iff] at h
  obtain ⟨-, -, rfl⟩ := h
  rfl

/-- Only bodies of the common types in `front` are being walked, and at most as many are left as
there are steps. -/
structure Ready (steps : Nat) (front : Name → Prop) (s : State) : Prop where
  walking : ∀ n, s.common.find? n = some .walking → front n
  room : ∃ names : List Name, names.length ≤ steps ∧
    ∀ n, s.common.find? n = some .waiting → n ∈ names

/-- A later state is as ready as an earlier one. -/
theorem Ready.later {steps : Nat} {front : Name → Prop} {s s' : State}
    (h : Ready steps front s) (hs : Later s s') : Ready steps front s' where
  walking n hn := h.walking n ((hs.walking n).mp hn)
  room := by
    obtain ⟨names, hlength, hnames⟩ := h.room
    exact ⟨names, hlength, fun n hn ↦ hnames n (hs.waiting n hn)⟩

/-- A step is left for a body that waits. -/
theorem Ready.exists_step {steps : Nat} {front : Name → Prop} {s : State} {n : Name}
    (h : Ready steps front s) (hn : s.common.find? n = some .waiting) :
    ∃ rest, steps = rest + 1 := by
  obtain ⟨names, hlength, hnames⟩ := h.room
  have hpos : 0 < names.length := List.length_pos_of_mem (hnames n hn)
  exact Nat.exists_eq_add_one.mpr (Nat.lt_of_lt_of_le hpos hlength)

/-! ### Walking a body -/

section

variable {n : Name} {s s' : State}

/-- While one more body is walked, one fewer is left. -/
theorem Ready.walk {steps : Nat} {front front' : Name → Prop} (h : Ready (steps + 1) front s)
    (hn : s.common.find? n = some .waiting) (hs : s'.common = s.common.insert n .walking)
    (hfront : ∀ m, front m → front' m) (hfront' : front' n) : Ready steps front' s' where
  walking m hm := by
    rw [hs, Table.find?_insert] at hm
    split at hm
    · next heq => exact heq ▸ hfront'
    · exact hfront m (h.walking m hm)
  room := by
    obtain ⟨names, hlength, hnames⟩ := h.room
    refine ⟨names.erase n, ?_, fun m hm ↦ ?_⟩
    · rw [List.length_erase_of_mem (hnames n hn)]
      omega
    · rw [hs, Table.find?_insert] at hm
      split at hm
      · cases hm
      · next hne => exact (List.mem_erase_of_ne hne).mpr (hnames m hm)

/-- Once a body is walked and its outcome noted, the same bodies are being walked as before. -/
theorem Later.settle {s₁ s₂ : State} (h : Later s₁ s₂) {outcome : Option (ResolvedType × Nat)}
    (hn : s.common.find? n = some .waiting) (hs₁ : s₁.common = s.common.insert n .walking)
    (hs' : s'.common = s₂.common.insert n (.settled outcome)) : Later s s' where
  walking m := by
    by_cases hm : m = n
    · subst hm
      simp [hs', Table.find?_insert, hn]
    · have hwalking := h.walking m
      rw [hs₁, Table.find?_insert, if_neg hm] at hwalking
      rw [hs', Table.find?_insert, if_neg hm, hwalking]
  waiting m hm := by
    rw [hs', Table.find?_insert] at hm
    split at hm
    · cases hm
    · next hne =>
      have hwaiting := h.waiting m hm
      rwa [hs₁, Table.find?_insert, if_neg hne] at hwaiting

end

/-! ### Steps -/

/-- Steps that end without a problem only if they began without one, and then keep what is known of
the common types right and walk bodies inside one another. A property is owed to their results where
there are enough steps left. -/
def yielding (index : Index) (ds : List Declared) (steps : Nat) (front : Name → Prop) : Kind where
  given := index.Reflects ds
  rel s s' := s'.problems = [] → s.problems = [] ∧
    (Sound index ds s → Ready steps front s → Sound index ds s' ∧ Later s s')
  owes s s' := s'.problems = [] ∧ Sound index ds s ∧ Ready steps front s
  given_of_owes h := h.2.1.reflects
  refl s hs := ⟨hs, fun hsound _ ↦ ⟨hsound, .refl s⟩⟩
  trans h h' hs := by
    obtain ⟨hmiddle, hsecond⟩ := h' hs
    obtain ⟨hbefore, hfirst⟩ := h hmiddle
    refine ⟨hbefore, fun hsound hready ↦ ?_⟩
    obtain ⟨hsound', hlater⟩ := hfirst hsound hready
    obtain ⟨hsound'', hlater'⟩ := hsecond hsound' (hready.later hlater)
    exact ⟨hsound'', hlater.trans hlater'⟩
  owes_first _ h' howes := ⟨(h' howes.1).1, howes.2⟩
  owes_second h h' howes := by
    obtain ⟨hs, hsound, hready⟩ := howes
    obtain ⟨hsound', hlater⟩ := (h (h' hs).1).2 hsound hready
    exact ⟨hs, hsound', hready.later hlater⟩
  checked _ hs := ⟨hs, fun hsound _ ↦
    ⟨⟨hsound.reflects, hsound.known, hsound.settled⟩, ⟨fun _ ↦ .rfl, fun _ ↦ id⟩⟩⟩

/-- If the step ends without a problem from the state `s`, then it began without one, and if `s` is
sound and ready, then the step leads to a sound state and gives a result with the property. -/
abbrev YieldsAt (index : Index) (ds : List Declared) (steps : Nat) (front : Name → Prop) (s : State)
    (x : Resolving α) (Q : α → Prop) : Prop :=
  (yielding index ds steps front).TripleAt s x Q

/-- The step yields results with the property, from any state. -/
abbrev Yields (index : Index) (ds : List Declared) (steps : Nat) (front : Name → Prop)
    (x : Resolving α) (Q : α → Prop) : Prop :=
  (yielding index ds steps front).Triple x Q

variable {index : Index} {ds : List Declared} {steps : Nat} {front : Name → Prop}

/-- What a step yields from a state: it is asked for only where no problem is found. -/
theorem yieldsAt_iff {s : State} {x : Resolving α} {Q : α → Prop} :
    YieldsAt index ds steps front s x Q ↔ ((x.run s).2.problems = [] → s.problems = [] ∧
      (Sound index ds s → Ready steps front s →
        Sound index ds (x.run s).2 ∧ Later s (x.run s).2 ∧ Q (x.run s).1)) := by
  constructor
  · intro h hs
    obtain ⟨hbefore, hrun⟩ := h.rel hs
    refine ⟨hbefore, fun hsound hready ↦ ?_⟩
    obtain ⟨hsound', hlater⟩ := hrun hsound hready
    exact ⟨hsound', hlater, h.result ⟨hs, hsound, hready⟩⟩
  · intro h
    refine ⟨fun hs ↦ ⟨(h hs).1, fun hsound hready ↦ ?_⟩, fun ⟨hs, hsound, hready⟩ ↦ ?_⟩
    · exact ⟨((h hs).2 hsound hready).1, ((h hs).2 hsound hready).2.1⟩
    · exact ((h hs).2 hsound hready).2.2

/-- A step that changes nothing that is known of the common types. -/
theorem Yields.of_common_eq {x : Resolving α} {Q : α → Prop}
    (h : ∀ s, (x.run s).2.problems = [] →
      s.problems = [] ∧ (x.run s).2.common = s.common ∧ Q (x.run s).1) :
    Yields index ds steps front x Q := by
  intro s
  refine yieldsAt_iff.mpr ?_
  intro hs
  obtain ⟨hbefore, hcommon, ha⟩ := h s hs
  refine ⟨hbefore, fun hsound hready ↦ ⟨⟨hsound.reflects, ?_, ?_⟩, .of_eq hcommon, ha⟩⟩ <;>
    rw [hcommon]
  · exact hsound.known
  · exact hsound.settled

/-! ### Problems -/

/-- A step that reports a problem may give anything, since it does not end without one. -/
theorem yields_report (cause : Cause) (location : Option Location) (Q : Unit → Prop) :
    Yields index ds steps front (Resolving.report cause location) Q := by
  apply Yields.of_common_eq
  intro s hs
  have hnil : s.problems ++ [⟨cause, location⟩] = [] := hs
  simp at hnil

/-- A rejected step may give anything too. -/
theorem yields_reject (cause : Cause) (origin : Origin) (Q : Option α → Prop) :
    Yields index ds steps front (Resolving.reject cause origin) Q :=
  .reject (yields_report cause origin.location fun _ ↦ False) False.elim

end PolicySchema.Resolve
