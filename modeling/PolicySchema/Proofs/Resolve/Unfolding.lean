import PolicySchema.Proofs.Resolve.Collected

/-!
# Unfolding is deterministic

When every name is declared once, a reference denotes at most one thing, and a type has at most one
substitution. Where no common type refers to itself, this is what the type unfolds to
(`Index.Reflects.isSubstitution_of_unfolds`).
-/

namespace PolicySchema.Resolve.Index.Reflects

variable {index : Index} {ds : List Declared}

/-- A reference denotes at most one thing. -/
theorem denotes_unique (h : index.Reflects ds) {ns : Option Name} {r : TypeRef} {x y : Referent}
    (hx : Denotes ds ns r x) (hy : Denotes ds ns r y) : x = y := by
  rw [h.denotes_iff] at hx hy
  rw [hx] at hy
  exact Option.some.inj hy

/-- A common type is declared once. -/
theorem commonType_unique (h : index.Reflects ds) {n : Name} {d d' : Placed (TypeExpr TypeRef)}
    (hd : .commonType n d ∈ ds) (hd' : .commonType n d' ∈ ds) : d = d' := by
  rw [← h.commonType] at hd hd'
  rw [hd] at hd'
  exact Option.some.inj hd'

mutual

private theorem unfolds_unique (h : index.Reflects ds) {ns : Option Name} {t : TypeExpr TypeRef}
    {u v : ResolvedType} (hu : Unfolds ds (fun _ ↦ False) ns t u)
    (hv : Unfolds ds (fun _ ↦ False) ns t v) : u = v := by
  match hu with
  | .atom hr =>
    cases hv with
    | atom hr' =>
      cases h.denotes_unique hr hr'
      rfl
    | common hr' => cases h.denotes_unique hr hr'
  | .common hr hn =>
    cases hv with
    | atom hr' => cases h.denotes_unique hr hr'
    | common hr' hn' =>
      rw [Referent.common.inj (h.denotes_unique hr' hr)] at hn'
      exact h.unfoldsName_unique hn hn'
  | .set ht =>
    cases hv with
    | set ht' => rw [h.unfolds_unique ht ht']
  | .record hf =>
    cases hv with
    | record hf' => rw [h.unfoldsFields_unique hf hf']

private theorem unfoldsName_unique (h : index.Reflects ds) {n : Name} {u v : ResolvedType}
    (hu : UnfoldsName ds (fun _ ↦ False) n u) (hv : UnfoldsName ds (fun _ ↦ False) n v) :
    u = v := by
  match hu with
  | .loop hl _ => exact hl.elim
  | .body hd ht =>
    cases hv with
    | loop hl => exact hl.elim
    | body hd' ht' =>
      rw [h.commonType_unique hd' hd] at ht'
      exact h.unfolds_unique ht ht'

private theorem unfoldsFields_unique (h : index.Reflects ds) {ns : Option Name}
    {fields : Fields TypeRef} {u v : Fields Atom}
    (hu : UnfoldsFields ds (fun _ ↦ False) ns fields u)
    (hv : UnfoldsFields ds (fun _ ↦ False) ns fields v) : u = v := by
  match hu with
  | .nil =>
    cases hv
    rfl
  | .cons ht hrest =>
    cases hv with
    | cons ht' hrest' => rw [h.unfolds_unique ht ht', h.unfoldsFields_unique hrest hrest']

end

/-- A type has one substitution at most. -/
theorem isSubstitution_iff (h : index.Reflects ds) {ns : Option Name} {t : TypeExpr TypeRef}
    {u : ResolvedType} : IsSubstitution ds ns t u ↔ Unfolds ds (fun _ ↦ False) ns t u := by
  constructor
  · intro hu
    exact (hu u).mpr rfl
  · intro hu v
    constructor
    · intro hv
      exact h.unfolds_unique hv hu
    · rintro rfl
      exact hu

/-- Where no common type refers to itself, a type has what it unfolds to as its only
substitution. -/
theorem isSubstitution_of_unfolds (h : index.Reflects ds) (hc : ∀ n, ¬IsCyclic ds n)
    {ns : Option Name} {t : TypeExpr TypeRef} {u : ResolvedType}
    (hu : Unfolds ds (IsCyclic ds) ns t u) : IsSubstitution ds ns t u := by
  have hloops : IsCyclic ds = fun _ ↦ False := by
    funext n
    simp [hc n]
  rw [hloops] at hu
  exact h.isSubstitution_iff.mpr hu

/-- What holds of each reference from one common type to another one, as it is looked up. -/
theorem of_refersTo (h : index.Reflects ds) {P : Name → Name → Prop}
    (hP : ∀ e ∈ index.commonTypes.entries, ∀ r ∈ e.2.declaration.body.leaves,
      ∀ m ∈ (index.target e.2.ns r).common?, P e.1 m) {n m : Name} (hnm : RefersTo ds n m) :
    P n m := by
  obtain ⟨d, r, hd, hr, hm⟩ := hnm
  rw [← h.commonType, Table.find?_eq_some_iff] at hd
  rw [h.denotes_iff, Target.referent?_eq_common_iff] at hm
  exact hP (n, d) hd r hr m hm

/-- No common type refers to itself if each one ranks above those that its body refers to. -/
theorem not_isCyclic_of_rank (h : index.Reflects ds) (rank : Name → Nat)
    (hrank : ∀ e ∈ index.commonTypes.entries, ∀ r ∈ e.2.declaration.body.leaves,
      ∀ m ∈ (index.target e.2.ns r).common?, rank m < rank e.1) (n : Name) : ¬IsCyclic ds n := by
  have hrun {n m : Name} (hnm : Relation.TransGen (RefersTo ds) n m) : rank m < rank n := by
    induction hnm with
    | single hnm => exact h.of_refersTo (P := fun n m ↦ rank m < rank n) hrank hnm
    | tail _ hnm ih =>
      exact Nat.lt_trans (h.of_refersTo (P := fun n m ↦ rank m < rank n) hrank hnm) ih
  intro hn
  exact Nat.lt_irrefl _ (hrun hn)

end PolicySchema.Resolve.Index.Reflects
