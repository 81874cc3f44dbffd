import PolicySchema.Proofs.Resolve.Faults

/-!
# What types are read as

A run reads the body of a common type outside of all sets and records, and puts what it finds in
place of each reference where it fits. In its own body, a common type stands for the entity type of
its name. What a type is read as is stated here without a run (`Reads`). It is at most one type
(`Index.Reflects.reads_unique`), which nests no deeper than is allowed (`Reads.add_depth_le`). No
common type that leads to another one and back is read as anything (`ReadsName.not_isMutual`). Where
no common type refers to itself, a type is read as what it unfolds to, if this fits
(`exists_reads_iff`).
-/

namespace PolicySchema.Resolve

section

variable (ds : List Declared) (extensions : Extensions)

mutual

/-- What a type is read as that is written in the namespace `ns`, inside of `level` sets and
records, and in the body of the common type `own` if it is in one. -/
inductive Reads : Option Name → Option Name → Nat → TypeExpr TypeRef → ResolvedType → Prop where
  | atom {own ns level r a} : Denotes ds ns r (.atom a) → Found ds extensions a →
      Reads own ns level (.leaf r) (.leaf a)
  | common {own ns level r n u} : Denotes ds ns r (.common n) → ReadsName own level n u →
      Reads own ns level (.leaf r) u
  | set {own ns level t u} : level < TypeExpr.maxDepth → Reads own ns (level + 1) t u →
      Reads own ns level (.set t) (.set u)
  | record {own ns level fields fields' notes} : level < TypeExpr.maxDepth →
      ReadsFields own ns (level + 1) fields fields' →
      Reads own ns level (.record fields notes) (.record fields' notes)

/-- What a reference to a common type is read as. -/
inductive ReadsName : Option Name → Nat → Name → ResolvedType → Prop where
  | own {level n} : HasEntityType ds n → ReadsName (some n) level n (.leaf (.entity n))
  | body {own level n d u} : own ≠ some n → .commonType n d ∈ ds →
      Reads (some n) d.ns 0 d.declaration.body u → level + u.depth ≤ TypeExpr.maxDepth →
      ReadsName own level n u

/-- What the attributes of a record are read as. -/
inductive ReadsFields : Option Name → Option Name → Nat → Fields TypeRef → Fields Atom → Prop where
  | nil {own ns level} : ReadsFields own ns level .nil .nil
  | cons {own ns level key t u required notes rest rest'} : Reads own ns level t u →
      ReadsFields own ns level rest rest' →
      ReadsFields own ns level (.cons key t required notes rest)
        (.cons key u required notes rest')

end

end

variable {ds : List Declared} {extensions : Extensions} {index : Index} {own ns : Option Name}
  {level : Nat} {r : TypeRef} {n : Name}

/-! ### Type by type -/

/-- A set is read one level down, where that level is within the limit. -/
theorem reads_set_iff {t : TypeExpr TypeRef} {v : ResolvedType} :
    Reads ds extensions own ns level (.set t) v ↔
      level < TypeExpr.maxDepth ∧ ∃ u, Reads ds extensions own ns (level + 1) t u ∧ v = .set u := by
  constructor
  · rintro (_ | _ | ⟨hlevel, hu⟩)
    exact ⟨hlevel, _, hu, rfl⟩
  · rintro ⟨hlevel, u, hu, rfl⟩
    exact .set hlevel hu

/-- A record is read one level down, where that level is within the limit. -/
theorem reads_record_iff {fields : Fields TypeRef} {notes : Annotations} {v : ResolvedType} :
    Reads ds extensions own ns level (.record fields notes) v ↔ level < TypeExpr.maxDepth ∧
      ∃ u, ReadsFields ds extensions own ns (level + 1) fields u ∧ v = .record u notes := by
  constructor
  · rintro (_ | _ | _ | ⟨hlevel, hu⟩)
    exact ⟨hlevel, _, hu, rfl⟩
  · rintro ⟨hlevel, u, hu, rfl⟩
    exact .record hlevel hu

/-- Fields are read at one level, one after the other. -/
theorem readsFields_cons_iff {key : String} {t : TypeExpr TypeRef} {required : Bool}
    {notes : Annotations} {rest : Fields TypeRef} {v : Fields Atom} :
    ReadsFields ds extensions own ns level (.cons key t required notes rest) v ↔
      ∃ u u', Reads ds extensions own ns level t u ∧
        ReadsFields ds extensions own ns level rest u' ∧ v = .cons key u required notes u' := by
  constructor
  · rintro (_ | ⟨hu, hu'⟩)
    exact ⟨_, _, hu, hu', rfl⟩
  · rintro ⟨u, u', hu, hu', rfl⟩
    exact .cons hu hu'

section

variable (h : index.Reflects ds) {u v : ResolvedType}

include h

/-- A reference to a common type is read as what the common type is. -/
theorem reads_leaf_of_common (hr : Denotes ds ns r (.common n)) :
    Reads ds extensions own ns level (.leaf r) u ↔ ReadsName ds extensions own level n u := by
  constructor
  · rintro (⟨hr', -⟩ | ⟨hr', hu⟩)
    · cases h.denotes_unique hr hr'
    · rwa [Referent.common.inj (h.denotes_unique hr hr')]
  · exact .common hr

/-- A reference to an atom is read as the atom, where the atom is found. -/
theorem reads_leaf_of_atom {a : Atom} (hr : Denotes ds ns r (.atom a)) :
    Reads ds extensions own ns level (.leaf r) u ↔ Found ds extensions a ∧ u = .leaf a := by
  constructor
  · rintro (⟨hr', ha⟩ | ⟨hr', -⟩)
    · obtain rfl := Referent.atom.inj (h.denotes_unique hr hr')
      exact ⟨ha, rfl⟩
    · cases h.denotes_unique hr hr'
  · rintro ⟨ha, rfl⟩
    exact .atom hr ha

end

namespace Index.Reflects

mutual

/-- A type is read as at most one type. -/
theorem reads_unique (h : index.Reflects ds) {own ns : Option Name} {level : Nat}
    {t : TypeExpr TypeRef} {u v : ResolvedType} (hu : Reads ds extensions own ns level t u)
    (hv : Reads ds extensions own ns level t v) : u = v := by
  match hu with
  | .atom hr _ =>
    obtain ⟨-, rfl⟩ := (reads_leaf_of_atom h hr).mp hv
    rfl
  | .common hr hn => exact h.readsName_unique hn ((reads_leaf_of_common h hr).mp hv)
  | .set _ hu =>
    obtain ⟨-, v, hv', rfl⟩ := reads_set_iff.mp hv
    rw [h.reads_unique hu hv']
  | .record _ hu =>
    obtain ⟨-, v, hv', rfl⟩ := reads_record_iff.mp hv
    rw [h.readsFields_unique hu hv']

/-- A common type is read in one way at most. -/
theorem readsName_unique (h : index.Reflects ds) {own : Option Name} {level : Nat} {n : Name}
    {u v : ResolvedType} (hu : ReadsName ds extensions own level n u)
    (hv : ReadsName ds extensions own level n v) : u = v := by
  match hu with
  | .own _ =>
    cases hv with
    | own => rfl
    | body hown => exact absurd rfl hown
  | .body hown hd hu _ =>
    cases hv with
    | own => exact absurd rfl hown
    | body _ hd' hv' _ =>
      rw [h.commonType_unique hd' hd] at hv'
      exact h.reads_unique hu hv'

private theorem readsFields_unique (h : index.Reflects ds) {own ns : Option Name} {level : Nat}
    {fields : Fields TypeRef} {u v : Fields Atom}
    (hu : ReadsFields ds extensions own ns level fields u)
    (hv : ReadsFields ds extensions own ns level fields v) : u = v := by
  match hu with
  | .nil =>
    cases hv
    rfl
  | .cons hu hrest =>
    obtain ⟨v, rest', hv', hrest', rfl⟩ := readsFields_cons_iff.mp hv
    rw [h.reads_unique hu hv', h.readsFields_unique hrest hrest']

end

end Index.Reflects

/-! ### Depth -/

private theorem ReadsName.add_depth_le {u : ResolvedType}
    (hu : ReadsName ds extensions own level n u) (hlevel : level ≤ TypeExpr.maxDepth) :
    level + u.depth ≤ TypeExpr.maxDepth := by
  cases hu with
  | own => exact hlevel
  | body _ _ _ hfits => exact hfits

mutual

/-- What a type is read as nests no deeper than is allowed where the type is written. -/
theorem Reads.add_depth_le {own ns : Option Name} {level : Nat} {t : TypeExpr TypeRef}
    {u : ResolvedType} (hu : Reads ds extensions own ns level t u)
    (hlevel : level ≤ TypeExpr.maxDepth) : level + u.depth ≤ TypeExpr.maxDepth := by
  match hu with
  | .atom _ _ => exact hlevel
  | .common _ hn => exact hn.add_depth_le hlevel
  | .set hless hu =>
    have hdepth := hu.add_depth_le hless
    rw [TypeExpr.depth]
    omega
  | .record hless hu =>
    have hdepth := hu.add_depth_le hless
    rw [TypeExpr.depth]
    omega

private theorem ReadsFields.add_depth_le {own ns : Option Name} {level : Nat}
    {fields : Fields TypeRef} {u : Fields Atom}
    (hu : ReadsFields ds extensions own ns level fields u)
    (hlevel : level ≤ TypeExpr.maxDepth) : level + u.depth ≤ TypeExpr.maxDepth := by
  match hu with
  | .nil => exact hlevel
  | .cons hu hrest =>
    have hfirst := hu.add_depth_le hlevel
    have hothers := hrest.add_depth_le hlevel
    rw [Fields.depth]
    omega

end

/-- On its own, a common type is read as its body is. -/
theorem readsName_zero_iff (h : index.Reflects ds) {d : Placed (TypeExpr TypeRef)}
    (hd : .commonType n d ∈ ds) {u : ResolvedType} : ReadsName ds extensions none 0 n u ↔
      Reads ds extensions (some n) d.ns 0 d.declaration.body u := by
  constructor
  · rintro (_ | ⟨-, hd', hu, -⟩)
    rwa [h.commonType_unique hd hd']
  · intro hu
    exact .body nofun hd hu (hu.add_depth_le (Nat.zero_le _))

/-! ### Common types that lead to one another -/

/-- The common type leads to another one and back. -/
def IsMutual (ds : List Declared) (n : Name) : Prop :=
  ∃ m, m ≠ n ∧ Relation.TransGen (RefersTo ds) n m ∧ Relation.TransGen (RefersTo ds) m n

private theorem IsMutual.exists_refersTo (h : IsMutual ds n) :
    ∃ m, m ≠ n ∧ RefersTo ds n m ∧ Relation.TransGen (RefersTo ds) m n := by
  obtain ⟨m, hm, hnm, hmn⟩ := h
  induction hnm using Relation.TransGen.head_induction_on with
  | single hnm => exact ⟨m, hm, hnm, hmn⟩
  | head hab hbm ih =>
    next a b =>
    by_cases hba : b = a
    · subst hba
      exact ih hm hmn
    · exact ⟨b, hba, hab, hbm.trans hmn⟩

mutual

-- A type is read only if no reference in it denotes a common type that leads to another one and
-- back, but for that in whose body it is.
private theorem Reads.not_isMutual (h : index.Reflects ds) {own ns : Option Name} {level : Nat}
    {t : TypeExpr TypeRef} {u : ResolvedType} (hu : Reads ds extensions own ns level t u)
    {r : TypeRef} {n : Name} (hr : r ∈ t.leaves) (hn : Denotes ds ns r (.common n))
    (hown : own ≠ some n) : ¬IsMutual ds n := by
  match hu with
  | .atom hr' _ =>
    obtain rfl := List.mem_singleton.mp hr
    cases h.denotes_unique hr' hn
  | .common hr' hu =>
    obtain rfl := List.mem_singleton.mp hr
    obtain rfl := Referent.common.inj (h.denotes_unique hr' hn)
    exact hu.not_isMutual h hown
  | .set _ hu => exact hu.not_isMutual h hr hn hown
  | .record _ hu => exact hu.not_isMutual h hr hn hown

/-- A common type that leads to another one and back is not read as anything outside of its own
body. -/
theorem ReadsName.not_isMutual (h : index.Reflects ds) {own : Option Name} {level : Nat} {n : Name}
    {u : ResolvedType} (hu : ReadsName ds extensions own level n u) (hown : own ≠ some n) :
    ¬IsMutual ds n := by
  match hu with
  | .own _ => exact absurd rfl hown
  | .body _ hd hu _ =>
    intro hn
    obtain ⟨m, hm, ⟨d, r, hd', hr, hrm⟩, hmn⟩ := hn.exists_refersTo
    obtain rfl := h.commonType_unique hd hd'
    have hnm : Relation.TransGen (RefersTo ds) n m := .single ⟨_, r, hd, hr, hrm⟩
    exact hu.not_isMutual h hr hrm (fun hown ↦ hm (Option.some.inj hown).symm)
      ⟨n, hm.symm, hmn, hnm⟩

private theorem ReadsFields.not_isMutual (h : index.Reflects ds) {own ns : Option Name}
    {level : Nat} {fields : Fields TypeRef} {u : Fields Atom}
    (hu : ReadsFields ds extensions own ns level fields u) {r : TypeRef} {n : Name}
    (hr : r ∈ fields.leaves) (hn : Denotes ds ns r (.common n)) (hown : own ≠ some n) :
    ¬IsMutual ds n := by
  match hu with
  | .nil => cases hr
  | .cons hu hrest =>
    rcases List.mem_append.mp hr with hr | hr
    · exact hu.not_isMutual h hr hn hown
    · exact hrest.not_isMutual h hr hn hown

end

/-- No common type leads to another one and back if each one ranks above those that its body refers
to, other than itself. -/
theorem Index.Reflects.not_isMutual_of_rank (h : index.Reflects ds) (rank : Name → Nat)
    (hrank : ∀ e ∈ index.commonTypes.entries, ∀ r ∈ e.2.declaration.body.leaves,
      ∀ m ∈ (index.target e.2.ns r).common?, m = e.1 ∨ rank m < rank e.1) (n : Name) :
    ¬IsMutual ds n := by
  have hstep {n m : Name} (hnm : RefersTo ds n m) : m = n ∨ rank m < rank n :=
    h.of_refersTo (P := fun n m ↦ m = n ∨ rank m < rank n) hrank hnm
  have hrun {n m : Name} (hnm : Relation.TransGen (RefersTo ds) n m) :
      m = n ∨ rank m < rank n := by
    induction hnm with
    | single hnm => exact hstep hnm
    | tail _ hlast ih =>
      rcases ih with rfl | hlt
      · exact hstep hlast
      · exact .inr ((hstep hlast).elim (fun heq ↦ heq ▸ hlt) fun hlt' ↦ Nat.lt_trans hlt' hlt)
  rintro ⟨m, hne, hnm, hmn⟩
  have hlt := (hrun hnm).resolve_left hne
  exact (hrun hmn).elim (fun heq ↦ hne heq.symm) fun hlt' ↦ Nat.lt_asymm hlt hlt'

/-! ### Common types that do not refer to themselves -/

private theorem not_denotes_own (hacyclic : ∀ n, ¬IsCyclic ds n) {n : Name}
    {d : Placed (TypeExpr TypeRef)} (hd : .commonType n d ∈ ds) {r : TypeRef}
    (hr : r ∈ d.declaration.body.leaves) {m : Name} (hm : Denotes ds d.ns r (.common m)) :
    some n ≠ some m := by
  rintro ⟨⟩
  exact hacyclic n (.single ⟨d, r, hd, hr, hm⟩)

mutual

private theorem Reads.unfolds (hacyclic : ∀ n, ¬IsCyclic ds n) {own ns : Option Name} {level : Nat}
    {t : TypeExpr TypeRef} {u : ResolvedType} (hu : Reads ds extensions own ns level t u)
    (hown : ∀ r ∈ t.leaves, ∀ n, Denotes ds ns r (.common n) → own ≠ some n) :
    Unfolds ds (fun _ ↦ False) ns t u := by
  match hu with
  | .atom hr _ => exact .atom hr
  | .common hr hn => exact .common hr (hn.unfolds hacyclic (hown _ List.mem_cons_self _ hr))
  | .set _ hu => exact .set (hu.unfolds hacyclic hown)
  | .record _ hu => exact .record (hu.unfolds hacyclic hown)

private theorem ReadsName.unfolds (hacyclic : ∀ n, ¬IsCyclic ds n) {own : Option Name} {level : Nat}
    {n : Name} {u : ResolvedType} (hu : ReadsName ds extensions own level n u)
    (hown : own ≠ some n) : UnfoldsName ds (fun _ ↦ False) n u := by
  match hu with
  | .own _ => exact absurd rfl hown
  | .body _ hd hu _ =>
    exact .body hd (hu.unfolds hacyclic fun r hr n ↦ not_denotes_own hacyclic hd hr)

private theorem ReadsFields.unfolds (hacyclic : ∀ n, ¬IsCyclic ds n) {own ns : Option Name}
    {level : Nat} {fields : Fields TypeRef} {u : Fields Atom}
    (hu : ReadsFields ds extensions own ns level fields u)
    (hown : ∀ r ∈ fields.leaves, ∀ n, Denotes ds ns r (.common n) → own ≠ some n) :
    UnfoldsFields ds (fun _ ↦ False) ns fields u := by
  match hu with
  | .nil => exact .nil
  | .cons hu hrest =>
    obtain ⟨hfirst, hothers⟩ := List.forall_mem_append.mp hown
    exact .cons (hu.unfolds hacyclic hfirst) (hrest.unfolds hacyclic hothers)

end

/-- Every reference in the declarations denotes something, and what it denotes is there. -/
def AllFound (ds : List Declared) (extensions : Extensions) : Prop :=
  ∀ d ∈ ds, ∀ r ∈ d.references,
    ∃ x, Denotes ds d.ns r x ∧ ∀ a, x = .atom a → Found ds extensions a

mutual

private theorem Unfolds.reads (h : index.Reflects ds) (hacyclic : ∀ n, ¬IsCyclic ds n)
    (hfound : AllFound ds extensions) {own ns : Option Name} {level : Nat} {t : TypeExpr TypeRef}
    {u : ResolvedType} (hu : Unfolds ds (fun _ ↦ False) ns t u)
    (hleaves : ∀ r ∈ t.leaves, ∃ d ∈ ds, d.ns = ns ∧ r ∈ d.references)
    (hown : ∀ r ∈ t.leaves, ∀ n, Denotes ds ns r (.common n) → own ≠ some n)
    (hfits : level + u.depth ≤ TypeExpr.maxDepth) : Reads ds extensions own ns level t u := by
  match hu with
  | .atom hr =>
    obtain ⟨d, hd, rfl, href⟩ := hleaves _ List.mem_cons_self
    obtain ⟨x, hx, ha⟩ := hfound d hd _ href
    exact .atom hr (ha _ (h.denotes_unique hx hr))
  | .common hr (.body hd hu) =>
    refine .common hr (.body (hown _ List.mem_cons_self _ hr) hd ?_ hfits)
    refine hu.reads h hacyclic hfound (fun r hr ↦ ⟨_, hd, rfl, ?_⟩)
      (fun r hr n ↦ not_denotes_own hacyclic hd hr) (by omega)
    exact List.mem_flatMap.mpr ⟨_, List.mem_cons_self, hr⟩
  | .set hu =>
    rw [TypeExpr.depth] at hfits
    exact .set (by omega) (hu.reads h hacyclic hfound hleaves hown (by omega))
  | .record hu =>
    rw [TypeExpr.depth] at hfits
    exact .record (by omega) (hu.reads h hacyclic hfound hleaves hown (by omega))

private theorem UnfoldsFields.reads (h : index.Reflects ds) (hacyclic : ∀ n, ¬IsCyclic ds n)
    (hfound : AllFound ds extensions) {own ns : Option Name} {level : Nat}
    {fields : Fields TypeRef} {u : Fields Atom} (hu : UnfoldsFields ds (fun _ ↦ False) ns fields u)
    (hleaves : ∀ r ∈ fields.leaves, ∃ d ∈ ds, d.ns = ns ∧ r ∈ d.references)
    (hown : ∀ r ∈ fields.leaves, ∀ n, Denotes ds ns r (.common n) → own ≠ some n)
    (hfits : level + u.depth ≤ TypeExpr.maxDepth) :
    ReadsFields ds extensions own ns level fields u := by
  match hu with
  | .nil => exact .nil
  | .cons hu hrest =>
    rw [Fields.depth] at hfits
    obtain ⟨hfirst, hothers⟩ := List.forall_mem_append.mp hleaves
    obtain ⟨hfirst', hothers'⟩ := List.forall_mem_append.mp hown
    exact .cons (hu.reads h hacyclic hfound hfirst hfirst' (by omega))
      (hrest.reads h hacyclic hfound hothers hothers' (by omega))

end

mutual

private theorem exists_unfolds_of_leaves {loops : Name → Prop} {ns : Option Name}
    (t : TypeExpr TypeRef) (h : ∀ r ∈ t.leaves, ∃ u, Unfolds ds loops ns (.leaf r) u) :
    ∃ u, Unfolds ds loops ns t u := by
  match t with
  | .leaf r => exact h r List.mem_cons_self
  | .set element => exact (exists_unfolds_of_leaves element h).imp' _ fun _ ↦ .set
  | .record fields notes => exact (exists_unfoldsFields_of_leaves fields h).imp' _ fun _ ↦ .record

private theorem exists_unfoldsFields_of_leaves {loops : Name → Prop} {ns : Option Name}
    (fields : Fields TypeRef) (h : ∀ r ∈ fields.leaves, ∃ u, Unfolds ds loops ns (.leaf r) u) :
    ∃ u, UnfoldsFields ds loops ns fields u := by
  match fields with
  | .nil => exact ⟨_, .nil⟩
  | .cons key t required notes rest =>
    obtain ⟨hfirst, hothers⟩ := List.forall_mem_append.mp h
    obtain ⟨u, hu⟩ := exists_unfolds_of_leaves t hfirst
    obtain ⟨u', hu'⟩ := exists_unfoldsFields_of_leaves rest hothers
    exact ⟨_, .cons hu hu'⟩

end

-- A common type that leads only to listed ones unfolds. The induction is on the length of the list,
-- as the common types that the body refers to do not lead back to it.
private theorem exists_unfoldsName (hacyclic : ∀ n, ¬IsCyclic ds n)
    (hfound : AllFound ds extensions) (names : List Name) {n : Name} (hn : HasCommonType ds n)
    (hnames : ∀ m, Relation.ReflTransGen (RefersTo ds) n m → m ∈ names) :
    ∃ u, UnfoldsName ds (fun _ ↦ False) n u := by
  obtain ⟨d, hd⟩ := hn
  suffices hbody : ∃ u, Unfolds ds (fun _ ↦ False) d.ns d.declaration.body u from
    hbody.imp fun u hu ↦ .body hd hu
  apply exists_unfolds_of_leaves
  intro r hr
  obtain ⟨x, hx, -⟩ := hfound _ hd r (List.mem_flatMap.mpr ⟨_, List.mem_cons_self, hr⟩)
  cases x with
  | atom a => exact ⟨_, .atom hx⟩
  | common m =>
    have hnm : RefersTo ds n m := ⟨d, r, hd, hr, hx⟩
    have hlist : n ∈ names := hnames n .refl
    have hless : (names.erase n).length < names.length := by
      have hpos := List.length_pos_of_mem hlist
      rw [List.length_erase_of_mem hlist]
      omega
    obtain ⟨u, hu⟩ := exists_unfoldsName hacyclic hfound (names.erase n) hx.hasCommonType
      fun k hk ↦ by
        refine (List.mem_erase_of_ne ?_).mpr (hnames k (hk.head hnm))
        rintro rfl
        exact hacyclic k (.head' hnm hk)
    exact ⟨u, .common hx hu⟩
termination_by names.length

-- Where every reference denotes something and no common type refers to itself, each type unfolds.
private theorem exists_unfolds (h : index.Reflects ds) (hacyclic : ∀ n, ¬IsCyclic ds n)
    (hfound : AllFound ds extensions) {d : Declared} (hd : d ∈ ds) {t : TypeExpr TypeRef}
    (ht : t ∈ d.types) : ∃ u, Unfolds ds (fun _ ↦ False) d.ns t u := by
  apply exists_unfolds_of_leaves
  intro r hr
  obtain ⟨x, hx, -⟩ := hfound d hd r (List.mem_flatMap.mpr ⟨t, ht, hr⟩)
  cases x with
  | atom a => exact ⟨_, .atom hx⟩
  | common n =>
    refine (exists_unfoldsName hacyclic hfound (n :: index.commonTypes.keys) hx.hasCommonType
      fun m hm ↦ ?_).imp fun _ ↦ .common hx
    obtain rfl | ⟨k, -, d', r', -, -, hr'⟩ := hm.cases_tail
    · exact List.mem_cons_self
    · exact List.mem_cons_of_mem _ (Table.mem_keys_iff.mpr (h.contains_iff.mpr hr'.hasCommonType))

/-- Where every reference denotes something that is there and no common type refers to itself, a
type is read as something exactly if its substitution nests no deeper than is allowed. -/
theorem exists_reads_iff (h : index.Reflects ds) (hacyclic : ∀ n, ¬IsCyclic ds n)
    (hfound : AllFound ds extensions) {d : Declared} (hd : d ∈ ds) {t : TypeExpr TypeRef}
    (ht : t ∈ d.types) (hown : ∀ r ∈ t.leaves, ∀ n, Denotes ds d.ns r (.common n) → own ≠ some n) :
    (∃ u, Reads ds extensions own d.ns 0 t u) ↔
      ∀ u, IsSubstitution ds d.ns t u → u.depth ≤ TypeExpr.maxDepth := by
  constructor
  · rintro ⟨u, hu⟩ v hv
    obtain rfl := (hv u).mp (hu.unfolds hacyclic hown)
    simpa using hu.add_depth_le (Nat.zero_le _)
  · intro hfits
    obtain ⟨u, hu⟩ := exists_unfolds h hacyclic hfound hd ht
    have hdepth := hfits u (h.isSubstitution_iff.mpr hu)
    refine ⟨u, hu.reads h hacyclic hfound (fun r hr ↦ ⟨d, hd, rfl, ?_⟩) hown (by omega)⟩
    exact List.mem_flatMap.mpr ⟨t, ht, hr⟩

/-- Where every reference denotes something that is there and no common type refers to itself, a
common type is read as something exactly if the substitution of its body nests no deeper than is
allowed. -/
theorem exists_readsName_iff (h : index.Reflects ds) (hacyclic : ∀ n, ¬IsCyclic ds n)
    (hfound : AllFound ds extensions) {d : Placed (TypeExpr TypeRef)}
    (hd : .commonType n d ∈ ds) : (∃ u, ReadsName ds extensions none 0 n u) ↔
      ∀ u, IsSubstitution ds d.ns d.declaration.body u → u.depth ≤ TypeExpr.maxDepth := by
  simp only [readsName_zero_iff h hd]
  exact exists_reads_iff h hacyclic hfound hd List.mem_cons_self
    fun r hr m ↦ not_denotes_own hacyclic hd hr

end PolicySchema.Resolve
