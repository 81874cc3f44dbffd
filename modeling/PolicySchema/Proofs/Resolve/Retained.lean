import PolicySchema.Proofs.KeySet
import PolicySchema.Proofs.Resolve.Collected

/-!
# What is retained of repeated declarations

Whether or not a name is declared twice, the index holds the first declaration of each name
(`Index.retains_collect`). The problems found while collecting are only about repeated names.
-/

namespace PolicySchema

namespace Resolve

/-- The entity type that is declared, with its name. -/
def Declared.entityType? : Declared → Option (Name × Placed EntityType)
  | entityType n d => some (n, d)
  | _ => none

/-- The action that is declared, with its identity. -/
def Declared.action? : Declared → Option (Uid × Placed Action)
  | action uid d => some (uid, d)
  | _ => none

/-- The retained declaration of an entity type, which is the first. -/
def retainedEntityType? (ds : List Declared) (n : Name) : Option (Placed EntityType) :=
  Table.lookup? n (ds.filterMap Declared.entityType?)

/-- The retained declaration of an action, which is the first. -/
def retainedAction? (ds : List Declared) (uid : Uid) : Option (Placed Action) :=
  Table.lookup? uid (ds.filterMap Declared.action?)

/-- The index holds the retained declarations, and every declared entity type is known. -/
structure Index.Retains (index : Index) (ds : List Declared) : Prop where
  entityType : ∀ n, index.entityTypes.find? n = retainedEntityType? ds n
  action : ∀ uid, index.actions.find? uid = retainedAction? ds uid
  known : ∀ n, index.known.contains n = true ↔ HasEntityType ds n

variable {ds : List Declared}

/-! ### The first entry of a key -/

section

variable {κ α : Type} [Ord κ] {k : κ} {v : α} {l : List (κ × α)}

private theorem lookup?_append (k : κ) (l m : List (κ × α)) :
    Table.lookup? k (l ++ m) = (Table.lookup? k l).or (Table.lookup? k m) := by
  induction l with
  | nil => rfl
  | cons e rest ih =>
    simp only [List.cons_append, Table.lookup?]
    split
    · rfl
    · exact ih

variable [Std.LawfulEqOrd κ]

private theorem isSome_lookup?_iff : (Table.lookup? k l).isSome = true ↔ ∃ v, (k, v) ∈ l := by
  induction l with
  | nil => simp [Table.lookup?]
  | cons e rest ih =>
    obtain ⟨j, w⟩ := e
    by_cases hk : k = j
    · subst hk
      simp [Table.lookup?]
    · simp [Table.lookup?, Std.LawfulEqCmp.compare_eq_iff_eq, hk, ih]

variable [DecidableEq κ] {t : Table κ α}

private theorem find?_of_found (h : ∀ j, t.find? j = Table.lookup? j l)
    (hk : (t.find? k).isSome = true) (j : κ) :
    t.find? j = Table.lookup? j (l ++ [(k, v)]) := by
  rw [lookup?_append, ← h]
  by_cases hj : j = k
  · subst hj
    obtain ⟨w, hw⟩ := Option.isSome_iff_exists.mp hk
    simp [hw]
  · simp [Table.lookup?, Std.LawfulEqCmp.compare_eq_iff_eq, hj]

private theorem find?_insert_of_new [Std.TransOrd κ] (h : ∀ j, t.find? j = Table.lookup? j l)
    (hk : t.find? k = none) (j : κ) :
    (t.insert k v).find? j = Table.lookup? j (l ++ [(k, v)]) := by
  rw [lookup?_append, ← h, Table.find?_insert]
  by_cases hj : j = k
  · subst hj
    simp [hk, Table.lookup?]
  · simp [Table.lookup?, Std.LawfulEqCmp.compare_eq_iff_eq, hj]

end

/-- An entity type has a retained declaration if it is declared. -/
theorem isSome_retainedEntityType?_iff {n : Name} :
    (retainedEntityType? ds n).isSome = true ↔ ∃ d, .entityType n d ∈ ds := by
  rw [retainedEntityType?, isSome_lookup?_iff]
  refine exists_congr fun d ↦ ?_
  rw [List.mem_filterMap]
  constructor
  · rintro ⟨_ | ⟨n, d⟩ | _, hd, ⟨⟩⟩
    exact hd
  · intro hd
    exact ⟨_, hd, rfl⟩

/-- An action has a retained declaration if it is declared. -/
theorem isSome_retainedAction?_iff {uid : Uid} :
    (retainedAction? ds uid).isSome = true ↔ ∃ d, .action uid d ∈ ds := by
  rw [retainedAction?, isSome_lookup?_iff]
  refine exists_congr fun d ↦ ?_
  rw [List.mem_filterMap]
  constructor
  · rintro ⟨_ | _ | ⟨uid, d⟩, hd, ⟨⟩⟩
    exact hd
  · intro hd
    exact ⟨_, hd, rfl⟩

/-- The index holds an action if it is declared. -/
theorem Index.Retains.contains_action_iff {index : Index} (h : index.Retains ds) {uid : Uid} :
    index.actions.contains uid = true ↔ ∃ d, .action uid d ∈ ds := by
  rw [Table.contains, h.action, isSome_retainedAction?_iff]

/-! ### Collecting -/

namespace Index

private def Retaining (ds : List Declared) (c : Collected) : Prop :=
  c.1.Retains ds ∧ ∀ p ∈ c.2, p.cause.fault ≠ .cycle

variable {c : Collected}

private theorem retaining_report {cause : Cause} (location : Option Location)
    (hcause : cause.fault ≠ .cycle) (h : Retaining ds c) :
    Retaining ds (report c cause location) := by
  refine ⟨h.1, fun p hp ↦ ?_⟩
  rcases List.mem_append.mp hp with hp | hp
  · exact h.2 p hp
  · obtain rfl := List.mem_singleton.mp hp
    exact hcause

private theorem retaining_addCommonType (ns : Option Name)
    (e : Identifier × Declaration (TypeExpr TypeRef)) (h : Retaining ds c) :
    Retaining (ds ++ [.commonType (Name.under ns e.1) ⟨e.2, ns⟩]) (addCommonType ns c e) := by
  obtain ⟨⟨hentity, haction, hknown⟩, hproblems⟩ := h
  have hretaining : Retaining (ds ++ [.commonType (Name.under ns e.1) ⟨e.2, ns⟩]) c := by
    refine ⟨⟨?_, ?_, ?_⟩, hproblems⟩
    · simpa [retainedEntityType?, Declared.entityType?, List.filterMap_cons] using hentity
    · simpa [retainedAction?, Declared.action?, List.filterMap_cons] using haction
    · simpa [HasEntityType] using hknown
  unfold addCommonType
  dsimp only
  split
  · exact retaining_report _ (by simp [Cause.fault]) hretaining
  · obtain ⟨⟨hentity, haction, hknown⟩, hproblems⟩ := hretaining
    exact ⟨⟨hentity, haction, hknown⟩, hproblems⟩

private theorem retaining_addEntityType (ns : Option Name)
    (e : Identifier × Declaration EntityType) (h : Retaining ds c) :
    Retaining (ds ++ [.entityType (Name.under ns e.1) ⟨e.2, ns⟩]) (addEntityType ns c e) := by
  obtain ⟨⟨hentity, haction, hknown⟩, hproblems⟩ := h
  have hentries (n : Name) :
      retainedEntityType? (ds ++ [.entityType (Name.under ns e.1) ⟨e.2, ns⟩]) n =
        Table.lookup? n
          (ds.filterMap Declared.entityType? ++ [(Name.under ns e.1, ⟨e.2, ns⟩)]) := by
    simp [retainedEntityType?, Declared.entityType?]
  have haction' (uid : Uid) : c.1.actions.find? uid =
      retainedAction? (ds ++ [.entityType (Name.under ns e.1) ⟨e.2, ns⟩]) uid := by
    simpa [retainedAction?, Declared.action?, List.filterMap_cons] using haction uid
  have hdeclared (n : Name) :
      HasEntityType (ds ++ [.entityType (Name.under ns e.1) ⟨e.2, ns⟩]) n ↔
        HasEntityType ds n ∨ n = Name.under ns e.1 := by
    simp only [HasEntityType]
    simp [exists_or, or_right_comm]
  unfold addEntityType
  dsimp only
  split
  · next earlier hearlier =>
    have hfound : (c.1.entityTypes.find? (Name.under ns e.1)).isSome = true := by
      rw [hearlier]
      rfl
    have hretaining : Retaining (ds ++ [.entityType (Name.under ns e.1) ⟨e.2, ns⟩]) c := by
      refine ⟨⟨fun n ↦ ?_, haction', fun n ↦ ?_⟩, hproblems⟩
      · rw [hentries]
        exact find?_of_found hentity hfound n
      · -- The earlier declaration makes the name known.
        rw [hknown, hdeclared, iff_self_or]
        rintro rfl
        rw [hentity] at hfound
        exact .inl (isSome_retainedEntityType?_iff.mp hfound)
    split
    · exact retaining_report _ (by simp [Cause.fault]) hretaining
    · exact retaining_report _ (by simp [Cause.fault]) hretaining
  · next hnone =>
    refine ⟨⟨fun n ↦ ?_, haction', fun n ↦ ?_⟩, hproblems⟩
    · rw [hentries]
      exact find?_insert_of_new hentity hnone n
    · rw [KeySet.contains_add, hknown, hdeclared]

private theorem retaining_addAction (ns : Option Name) (e : String × Declaration Action)
    (h : Retaining ds c) :
    Retaining (ds ++ [.action ⟨actionEntityType ns, e.1⟩ ⟨e.2, ns⟩]) (addAction ns c e) := by
  obtain ⟨⟨hentity, haction, hknown⟩, hproblems⟩ := h
  have hentries (uid : Uid) :
      retainedAction? (ds ++ [.action ⟨actionEntityType ns, e.1⟩ ⟨e.2, ns⟩]) uid =
        Table.lookup? uid
          (ds.filterMap Declared.action? ++ [(⟨actionEntityType ns, e.1⟩, ⟨e.2, ns⟩)]) := by
    simp [retainedAction?, Declared.action?]
  have hentity' (n : Name) : c.1.entityTypes.find? n =
      retainedEntityType? (ds ++ [.action ⟨actionEntityType ns, e.1⟩ ⟨e.2, ns⟩]) n := by
    simpa [retainedEntityType?, Declared.entityType?, List.filterMap_cons] using hentity n
  have hknown' (n : Name) : (c.1.known.add (actionEntityType ns)).contains n = true ↔
      HasEntityType (ds ++ [.action ⟨actionEntityType ns, e.1⟩ ⟨e.2, ns⟩]) n := by
    simp only [KeySet.contains_add, hknown, HasEntityType]
    simp [or_and_right, exists_or, or_assoc, eq_comm]
  unfold addAction
  dsimp only
  split
  · next hfound =>
    refine retaining_report _ (by simp [Cause.fault]) ⟨⟨hentity', fun uid ↦ ?_, hknown'⟩, hproblems⟩
    rw [hentries]
    exact find?_of_found haction hfound uid
  · next hnew =>
    refine ⟨⟨hentity', fun uid ↦ ?_, hknown'⟩, hproblems⟩
    rw [hentries]
    exact find?_insert_of_new haction (by simpa [Table.contains] using hnew) uid

/-- The index of schemas holds the first declaration of each entity type and action, and no problem
that is found while it is collected is that of a cycle. -/
theorem retains_collect (schemas : List Schema) :
    (collect schemas).1.Retains (declared schemas) ∧
      ∀ p ∈ (collect schemas).2, p.cause.fault ≠ .cycle := by
  have hempty : Retaining [] (empty, []) := by
    refine ⟨⟨fun _ ↦ rfl, fun _ ↦ rfl, fun n ↦ ?_⟩, nofun⟩
    exact iff_of_false KeySet.not_contains_empty (by simp [HasEntityType])
  refine collect_induction schemas hempty (fun ns notes h ↦ ?_) retaining_addCommonType
    retaining_addEntityType retaining_addAction
  obtain ⟨⟨hentity, haction, hknown⟩, hproblems⟩ := h
  exact ⟨⟨hentity, haction, hknown⟩, hproblems⟩

end Index

end Resolve

end PolicySchema
