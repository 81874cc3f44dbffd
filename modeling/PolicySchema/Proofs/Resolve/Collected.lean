import Mathlib.Data.List.Induction
import PolicySchema.Proofs.Name
import PolicySchema.Proofs.Resolve.Meaning
import PolicySchema.Proofs.Table

/-!
# What is collected from schemas

Of several declarations of one thing the first is retained, and the index of schemas holds what is
retained of their declarations (`Index.reflects_retained`). A problem is found for each thing that
is declared again (`Index.exists_repeated_iff`), so if there is none, then the index holds exactly
the declarations (`Index.reflects_collect`). Looking up a reference in it gives exactly what the
reference denotes (`Index.Reflects.denotes_iff`).
-/

namespace PolicySchema.Resolve

/-! ### Retained declarations -/

/-- The declarations but for those that repeat an earlier one. -/
def retained (ds : List Declared) : List Declared :=
  ds.foldl (fun kept d ↦ if ∃ e ∈ kept, e.key = d.key then kept else kept ++ [d]) []

section

variable {ds : List Declared} {d : Declared}

private theorem retained_concat (ds : List Declared) (d : Declared) :
    retained (ds ++ [d]) =
      if ∃ e ∈ retained ds, e.key = d.key then retained ds else retained ds ++ [d] := by
  rw [retained, List.foldl_append]
  rfl

private theorem retained_concat_of_mem (h : d.key ∈ (retained ds).map Declared.key) :
    retained (ds ++ [d]) = retained ds := by
  rw [retained_concat, if_pos (List.mem_map.mp h)]

private theorem retained_concat_of_not_mem (h : d.key ∉ (retained ds).map Declared.key) :
    retained (ds ++ [d]) = retained ds ++ [d] := by
  rw [retained_concat, if_neg (mt List.mem_map.mpr h)]

private theorem mem_keys_retained_iff {k : Name ⊕ Name ⊕ Uid} :
    k ∈ (retained ds).map Declared.key ↔ k ∈ ds.map Declared.key := by
  induction ds using List.reverseRecOn with
  | nil => rfl
  | append_singleton ds d ih =>
    by_cases hd : d.key ∈ (retained ds).map Declared.key
    · rw [retained_concat_of_mem hd, List.map_append, List.mem_append, ← ih, List.map_singleton,
        List.mem_singleton, iff_self_or]
      rintro rfl
      exact hd
    · rw [retained_concat_of_not_mem hd, List.map_append, List.map_append, List.mem_append,
        List.mem_append, ih]

/-- If nothing is declared twice, all declarations are retained. -/
theorem retained_of_declaredOnce (h : DeclaredOnce ds) : retained ds = ds := by
  induction ds using List.reverseRecOn with
  | nil => rfl
  | append_singleton ds d ih =>
    obtain ⟨hds, hd⟩ := nodup_map_before h
    rw [retained_concat_of_not_mem (mt mem_keys_retained_iff.mp hd), ih hds]

end

/-- What is declared again, if the problem is about a repeated declaration. -/
def Cause.repeated? : Cause → Option (Name ⊕ Name ⊕ Uid)
  | duplicateCommonType n => some (.inl n)
  | duplicateEntityType n | enumConflict n => some (.inr (.inl n))
  | duplicateAction uid => some (.inr (.inr uid))
  | _ => none

/-- The index holds the declarations and no others. -/
structure Index.Reflects (index : Index) (ds : List Declared) : Prop where
  commonType : ∀ n d, index.commonTypes.find? n = some d ↔ .commonType n d ∈ ds
  entityType : ∀ n d, index.entityTypes.find? n = some d ↔ .entityType n d ∈ ds
  action : ∀ uid d, index.actions.find? uid = some d ↔ .action uid d ∈ ds
  known : ∀ n, index.known.contains n = true ↔ HasEntityType ds n

namespace Index

/-! ### Collecting -/

section

variable {C : List Declared → Collected → Prop}

private theorem foldl_of_step {ε : Type} {f : Collected → ε → Collected} {g : ε → List Declared}
    (hf : ∀ {ds c} e, C ds c → C (ds ++ g e) (f c e)) (l : List ε) {ds : List Declared}
    {c : Collected} (h : C ds c) : C (ds ++ l.flatMap g) (l.foldl f c) := by
  induction l generalizing ds c with
  | nil => simpa using h
  | cons e rest ih =>
    have hrest := ih (hf e h)
    rwa [List.append_assoc] at hrest

/-- What holds of no declarations, and still holds of some after one more is added, holds of those
of schemas. -/
theorem collect_induction (schemas : List Schema) (hempty : C [] (empty, []))
    (hnotes : ∀ {ds c} ns notes, C ds c → C ds (addAnnotations ns notes c))
    (hcommon : ∀ {ds c} ns e, C ds c →
      C (ds ++ [.commonType (Name.under ns e.1) ⟨e.2, ns⟩]) (addCommonType ns c e))
    (hentity : ∀ {ds c} ns e, C ds c →
      C (ds ++ [.entityType (Name.under ns e.1) ⟨e.2, ns⟩]) (addEntityType ns c e))
    (haction : ∀ {ds c} ns e, C ds c →
      C (ds ++ [.action ⟨actionEntityType ns, e.1⟩ ⟨e.2, ns⟩]) (addAction ns c e)) :
    C (declared schemas) (collect schemas) := by
  have hnamespace {ds c} (entry : Option Name × Namespace) (h : C ds c) :
      C (ds ++ declaredIn entry.1 entry.2) (addNamespace c entry) := by
    obtain ⟨ns, d⟩ := entry
    have hc := foldl_of_step (hcommon ns) d.commonTypes.entries (hnotes ns d.annotations h)
    have he := foldl_of_step (hentity ns) d.entityTypes.entries hc
    have ha := foldl_of_step (haction ns) d.actions.entries he
    simpa [addNamespace, declaredIn, ← List.map_eq_flatMap] using ha
  exact foldl_of_step (fun s hs ↦ foldl_of_step hnamespace s.namespaces.entries hs) schemas hempty

end

/-! ### Adding a declaration -/

section

variable {ds : List Declared} {index : Index}

/-- The index holds one more common type. -/
theorem Reflects.insertCommonType (h : index.Reflects ds) {n : Name}
    {d : Placed (TypeExpr TypeRef)} (hnone : index.commonTypes.find? n = none) :
    { index with commonTypes := index.commonTypes.insert n d }.Reflects
      (ds ++ [Declared.commonType n d]) := by
  obtain ⟨hcommon, hentity, haction, hknown⟩ := h
  constructor
  · intro m e
    simp [Table.find?_insert_eq_some_iff hnone, hcommon]
  · simpa using hentity
  · simpa using haction
  · simpa [HasEntityType] using hknown

/-- The index holds one more entity type, which is known. -/
theorem Reflects.insertEntityType (h : index.Reflects ds) {n : Name}
    {d : Placed EntityType} (hnone : index.entityTypes.find? n = none) :
    { index with
      entityTypes := index.entityTypes.insert n d
      known := index.known.add n }.Reflects (ds ++ [Declared.entityType n d]) := by
  obtain ⟨hcommon, hentity, haction, hknown⟩ := h
  constructor
  · simpa using hcommon
  · intro m e
    simp [Table.find?_insert_eq_some_iff hnone, hentity]
  · simpa using haction
  · intro m
    simp only [KeySet.contains_add, hknown, HasEntityType]
    simp [exists_or, or_right_comm]

/-- The index holds one more action, of which the entity type is known. -/
theorem Reflects.insertAction (h : index.Reflects ds) {uid : Uid}
    {d : Placed Action} (hnone : index.actions.find? uid = none) :
    { index with
      known := index.known.add uid.type
      actions := index.actions.insert uid d }.Reflects (ds ++ [Declared.action uid d]) := by
  obtain ⟨hcommon, hentity, haction, hknown⟩ := h
  constructor
  · simpa using hcommon
  · simpa using hentity
  · intro u e
    simp [Table.find?_insert_eq_some_iff hnone, haction]
  · intro m
    simp only [KeySet.contains_add, hknown, HasEntityType]
    simp [or_and_right, exists_or, or_assoc, eq_comm]

private theorem Reflects.addKnown (h : index.Reflects ds) {n : Name} (hn : HasEntityType ds n) :
    { index with known := index.known.add n }.Reflects ds where
  commonType := h.commonType
  entityType := h.entityType
  action := h.action
  known m := by
    rw [KeySet.contains_add, h.known, or_iff_left_iff_imp]
    rintro rfl
    exact hn

/-- The empty index holds no declarations. -/
theorem reflects_empty : empty.Reflects [] := by
  have hnone {κ α : Type} [Ord κ] (k : κ) : (∅ : Table κ α).find? k = none := Table.find?_empty k
  constructor <;> simp [empty, Table.contains, HasEntityType, hnone]

-- A table that holds the declarations of one kind contains a key if something of the kind is
-- declared under it.
private theorem contains_iff_mem_keys {κ α : Type} [Ord κ] {t : Table κ α} {k : κ} {d : Declared}
    {make : α → Declared} (hfind : ∀ v, t.find? k = some v ↔ make v ∈ ds)
    (hkey : ∀ x : Declared, x.key = d.key ↔ ∃ v, make v = x) :
    t.contains k = true ↔ d.key ∈ ds.map Declared.key := by
  rw [Table.contains, Option.isSome_iff_exists, List.mem_map]
  simp only [hfind, hkey]
  constructor
  · rintro ⟨v, hv⟩
    exact ⟨_, hv, v, rfl⟩
  · rintro ⟨_, hx, v, rfl⟩
    exact ⟨v, hx⟩

end

/-! ### Repeated declarations -/

variable {ds : List Declared} {c c' : Collected} {d : Declared}

-- What is collected holds what is retained, and the problems are about what is declared again.
private structure Repeating (ds : List Declared) (c : Collected) : Prop where
  reflects : c.1.Reflects (retained ds)
  once : c.2 = [] ↔ DeclaredOnce ds
  causes : ∀ p ∈ c.2, p.cause.repeated?.isSome = true
  repeated : ∀ k, (∃ p ∈ c.2, p.cause.repeated? = some k) ↔ 2 ≤ ds.countP (·.key = k)

private theorem Repeating.first (h : Repeating ds c) (hd : d.key ∉ (retained ds).map Declared.key)
    (hreflects : c'.1.Reflects (retained ds ++ [d])) (hproblems : c'.2 = c.2) :
    Repeating (ds ++ [d]) c' := by
  have hnew := mt mem_keys_retained_iff.mpr hd
  refine ⟨by rwa [retained_concat_of_not_mem hd], ?_, hproblems ▸ h.causes, fun k ↦ ?_⟩
  · rw [hproblems, h.once]
    exact ⟨fun honce ↦ nodup_map_concat honce hnew, fun honce ↦ (nodup_map_before honce).1⟩
  · rw [hproblems, h.repeated, List.countP_append, List.countP_singleton]
    by_cases hk : d.key = k
    · subst hk
      have hzero : ds.countP (·.key = d.key) = 0 := by
        refine List.countP_eq_zero.mpr fun e he ↦ ?_
        rw [decide_eq_true_eq]
        exact fun hkey ↦ hnew (List.mem_map.mpr ⟨e, he, hkey⟩)
      simp [hzero]
    · simp [hk]

private theorem Repeating.again (h : Repeating ds c) (hd : d.key ∈ (retained ds).map Declared.key)
    (hreflects : c'.1.Reflects (retained ds)) {cause : Cause} {location : Option Location}
    (hproblems : c'.2 = c.2 ++ [⟨cause, location⟩]) (hcause : cause.repeated? = some d.key) :
    Repeating (ds ++ [d]) c' := by
  have hkey := mem_keys_retained_iff.mp hd
  refine ⟨by rwa [retained_concat_of_mem hd], ?_, ?_, fun k ↦ ?_⟩
  · rw [hproblems]
    exact iff_of_false (by simp) fun honce ↦ (nodup_map_before honce).2 hkey
  · rw [hproblems, List.forall_mem_append, List.forall_mem_singleton, hcause]
    exact ⟨h.causes, rfl⟩
  · simp only [hproblems, List.mem_append, or_and_right, exists_or, List.mem_singleton,
      exists_eq_left, h.repeated, hcause, Option.some.injEq]
    rw [List.countP_append, List.countP_singleton]
    by_cases hk : d.key = k
    · subst hk
      obtain ⟨e, he, hekey⟩ := List.mem_map.mp hkey
      have hpos : 0 < ds.countP (·.key = d.key) :=
        List.countP_pos_iff.mpr ⟨e, he, decide_eq_true hekey⟩
      simp only [decide_true, if_true, or_true, true_iff]
      omega
    · simp [hk]

private theorem repeating_addCommonType (ns : Option Name)
    (e : Identifier × Declaration (TypeExpr TypeRef)) (h : Repeating ds c) :
    Repeating (ds ++ [.commonType (Name.under ns e.1) ⟨e.2, ns⟩]) (addCommonType ns c e) := by
  have hkey := contains_iff_mem_keys (d := .commonType (Name.under ns e.1) ⟨e.2, ns⟩)
    (h.reflects.commonType (Name.under ns e.1))
    (by rintro (_ | _ | _) <;> simp [Declared.key, eq_comm])
  unfold addCommonType
  dsimp only
  split
  · next hfound => exact h.again (hkey.mp hfound) h.reflects rfl rfl
  · next hnew =>
    exact h.first (mt hkey.mpr hnew)
      (h.reflects.insertCommonType (by simpa [Table.contains] using hnew)) rfl

private theorem repeating_addEntityType (ns : Option Name)
    (e : Identifier × Declaration EntityType) (h : Repeating ds c) :
    Repeating (ds ++ [.entityType (Name.under ns e.1) ⟨e.2, ns⟩]) (addEntityType ns c e) := by
  have hkey := contains_iff_mem_keys (d := .entityType (Name.under ns e.1) ⟨e.2, ns⟩)
    (h.reflects.entityType (Name.under ns e.1))
    (by rintro (_ | _ | _) <;> simp [Declared.key, eq_comm])
  rw [Table.contains] at hkey
  unfold addEntityType
  dsimp only
  split
  · next earlier hfound =>
    have hagain := hkey.mp (by rw [hfound]; rfl)
    split
    · exact h.again hagain h.reflects rfl rfl
    · exact h.again hagain h.reflects rfl rfl
  · next hnew =>
    exact h.first (mt hkey.mpr (by simp [hnew])) (h.reflects.insertEntityType hnew) rfl

private theorem repeating_addAction (ns : Option Name) (e : String × Declaration Action)
    (h : Repeating ds c) :
    Repeating (ds ++ [.action ⟨actionEntityType ns, e.1⟩ ⟨e.2, ns⟩]) (addAction ns c e) := by
  have hkey := contains_iff_mem_keys (d := .action ⟨actionEntityType ns, e.1⟩ ⟨e.2, ns⟩)
    (h.reflects.action ⟨actionEntityType ns, e.1⟩)
    (by rintro (_ | _ | _) <;> simp [Declared.key, eq_comm])
  unfold addAction
  dsimp only
  split
  · next hfound =>
    obtain ⟨a, ha⟩ := Option.isSome_iff_exists.mp hfound
    have hknown : HasEntityType (retained ds) (actionEntityType ns) :=
      .inr ⟨_, a, (h.reflects.action _ a).mp ha, rfl⟩
    exact h.again (hkey.mp hfound) (h.reflects.addKnown hknown) rfl rfl
  · next hnew =>
    exact h.first (mt hkey.mpr hnew)
      (h.reflects.insertAction (by simpa [Table.contains] using hnew)) rfl

private theorem repeating_addAnnotations (ns : Option Name) (notes : Annotations)
    (h : Repeating ds c) : Repeating ds (addAnnotations ns notes c) :=
  ⟨⟨h.reflects.commonType, h.reflects.entityType, h.reflects.action, h.reflects.known⟩,
    h.once, h.causes, h.repeated⟩

private theorem repeating_collect (schemas : List Schema) :
    Repeating (declared schemas) (collect schemas) := by
  have hempty : Repeating [] (empty, []) :=
    ⟨reflects_empty, iff_of_true rfl List.nodup_nil, nofun, by simp⟩
  exact collect_induction schemas hempty repeating_addAnnotations repeating_addCommonType
    repeating_addEntityType repeating_addAction

/-- The index of schemas holds what is retained of their declarations. -/
theorem reflects_retained (schemas : List Schema) :
    (collect schemas).1.Reflects (retained (declared schemas)) :=
  (repeating_collect schemas).reflects

/-- Each problem is about something that is declared again. -/
theorem isSome_repeated? {schemas : List Schema} {p : Problem} (hp : p ∈ (collect schemas).2) :
    p.cause.repeated?.isSome = true :=
  (repeating_collect schemas).causes p hp

/-- A problem is found for each thing that is declared at least twice. -/
theorem exists_repeated_iff {schemas : List Schema} {k : Name ⊕ Name ⊕ Uid} :
    (∃ p ∈ (collect schemas).2, p.cause.repeated? = some k) ↔
      2 ≤ (declared schemas).countP (·.key = k) :=
  (repeating_collect schemas).repeated k

/-- Declarations are collected without a problem exactly if nothing is declared twice. -/
theorem collect_eq_nil_iff (schemas : List Schema) :
    (collect schemas).2 = [] ↔ DeclaredOnce (declared schemas) :=
  (repeating_collect schemas).once

/-- An index that is collected without a problem holds what the schemas declare. -/
theorem reflects_collect {schemas : List Schema} (h : (collect schemas).2 = []) :
    (collect schemas).1.Reflects (declared schemas) := by
  have hreflects := reflects_retained schemas
  rwa [retained_of_declaredOnce ((collect_eq_nil_iff schemas).mp h)] at hreflects

/-! ### Looking up references -/

/-- The entity type that a name means is looked up among the known ones. -/
theorem meansEntityType_iff {index : Index} {ns : Option Name}
    (hknown : ∀ n, index.known.contains n = true ↔ HasEntityType ds n) {n m : Name} :
    MeansEntityType ds ns n m ↔ index.entityName ns n = m := by
  specialize hknown n
  constructor
  · rintro (hq | ⟨hb, he⟩ | ⟨hb, he⟩)
    · simp [entityName, Name.seenFrom, hq]
    · simp [entityName, hb, hknown.mpr he]
    · simp [entityName, Name.seenFrom, hb, hknown, he]
  · rintro rfl
    by_cases hb : n.isBare = true
    · by_cases he : HasEntityType ds n
      · simpa [entityName, hb, hknown, he] using MeansEntityType.anonymous hb he
      · simpa [entityName, Name.seenFrom, hb, hknown, he] using MeansEntityType.within hb he
    · have hq : n.isBare = false := by simpa using hb
      simpa [entityName, Name.seenFrom, hq] using MeansEntityType.qualified hq

/-- An atom that a look-up leads to at once is a primitive type or a known entity type. -/
theorem atom_of_target {index : Index} {ns : Option Name} {r : TypeRef} {a : Atom}
    (h : index.target ns r = .atom a) :
    (∃ p, a = .primitive p) ∨ ∃ n, a = .entity n ∧ index.known.contains n = true := by
  cases r <;> grind [target, builtinTarget, bareTarget]

/-- Only a name that must be that of a common type is looked up as a missing one. -/
theorem eq_common_of_target {index : Index} {ns : Option Name} {r : TypeRef} {n : Name}
    (h : index.target ns r = .missingCommon n) : r = .common n := by
  cases r <;> grind [target, builtinTarget, bareTarget]

end Index

/-- What a looked-up reference denotes, if anything of the kind is declared. -/
def Target.referent? : Target → Option Referent
  | .atom a => some (.atom a)
  | .common n => some (.common n)
  | .entity n => some (.atom (.entity n))
  | .extension id => some (.atom (.extension id))
  | .missingCommon _ => none

/-- The declared common type that a look-up leads to, if it leads to one. -/
def Target.common? : Target → Option Name
  | .common n => some n
  | _ => none

/-- A reference denotes a common type exactly when its target is that common type. -/
theorem Target.referent?_eq_common_iff {t : Target} {n : Name} :
    t.referent? = some (.common n) ↔ n ∈ t.common? := by
  cases t <;> simp [referent?, common?]

/-- A target that denotes a common type is that common type. -/
theorem Target.eq_common_of_referent? {t : Target} {n : Name}
    (h : t.referent? = some (.common n)) : t = .common n := by
  cases t <;> cases h
  rfl

namespace Index

variable {index : Index} {ns : Option Name} {r : TypeRef}

/-- Only the target of a primitive denotes the primitive. -/
theorem target_of_primitive {p : Primitive}
    (h : (index.target ns r).referent? = some (.atom (.primitive p))) :
    index.target ns r = .atom (.primitive p) := by
  cases htarget : index.target ns r <;> rw [htarget] at h <;> cases h
  rfl

/-- A reference to an entity type leads to it, and only to a known one at once. -/
theorem target_of_entity {n : Name}
    (h : (index.target ns r).referent? = some (.atom (.entity n))) :
    index.target ns r = .entity n ∨
      index.target ns r = .atom (.entity n) ∧ index.known.contains n = true := by
  cases htarget : index.target ns r <;> rw [htarget] at h <;> cases h
  · obtain ⟨p, ⟨⟩⟩ | ⟨m, ⟨⟩, hm⟩ := atom_of_target htarget
    exact .inr ⟨rfl, hm⟩
  · exact .inl rfl

/-- Only the target of an extension type denotes the extension type. -/
theorem target_of_extension {id : Identifier}
    (h : (index.target ns r).referent? = some (.atom (.extension id))) :
    index.target ns r = .extension id := by
  cases htarget : index.target ns r <;> rw [htarget] at h <;> cases h
  · obtain ⟨p, ⟨⟩⟩ | ⟨m, ⟨⟩, hm⟩ := atom_of_target htarget
  · rfl

end Index

namespace Index.Reflects

variable {index : Index} {ds : List Declared} {ns : Option Name}

/-- The index contains exactly the declared common types. -/
theorem contains_iff (h : index.Reflects ds) {n : Name} :
    index.commonTypes.contains n = true ↔ HasCommonType ds n := by
  simp [Table.contains, Option.isSome_iff_exists, h.commonType, HasCommonType]

private theorem meansCommonType_iff (h : index.Reflects ds) {id : Identifier} {m : Name} :
    MeansCommonType ds ns id m ↔ index.commonTypeName? ns id = some m := by
  constructor
  · rintro (hw | ⟨hw, ha⟩)
    · simp [commonTypeName?, h.contains_iff.mpr hw]
    · rw [← h.contains_iff] at hw ha
      simp [commonTypeName?, hw, ha]
  · intro hm
    unfold commonTypeName? at hm
    split at hm
    · next hw =>
      cases hm
      exact .within (h.contains_iff.mp hw)
    · next hw =>
      split at hm
      · next ha =>
        cases hm
        exact .anonymous (mt h.contains_iff.mpr hw) (h.contains_iff.mp ha)
      · cases hm

private theorem noCommonType_iff (h : index.Reflects ds) {id : Identifier} :
    NoCommonType ds ns id ↔ index.commonTypeName? ns id = none := by
  simp only [NoCommonType, commonTypeName?, ← h.contains_iff]
  by_cases hw : index.commonTypes.contains (Name.under ns id) = true <;>
    by_cases ha : index.commonTypes.contains (Name.bare id) = true <;> simp [hw, ha]

private theorem referent?_of_denotes (h : index.Reflects ds) {r : TypeRef} {x : Referent}
    (hr : Denotes ds ns r x) : (index.target ns r).referent? = some x := by
  cases hr with
  | primitive p => rfl
  | extension id => rfl
  | entity hm => simp [target, Target.referent?, (meansEntityType_iff h.known).mp hm]
  | commonQualified hq hc =>
    simp [target, Target.referent?, commonType?, hq, h.contains_iff.mpr hc]
  | commonBare hb hm =>
    simp [target, Target.referent?, commonType?, hb, h.meansCommonType_iff.mp hm]
  | commonPrimitive hb hn hp =>
    simp [target, Target.referent?, commonType?, hb, h.noCommonType_iff.mp hn, hp]
  | builtinPrimitive hx hp => simp [target, Target.referent?, builtinTarget, hx, hp]
  | builtinExtension hx hp => simp [target, Target.referent?, builtinTarget, hx, hp]
  | qualifiedCommon hq hx hc =>
    simp [target, Target.referent?, hq, hx, h.contains_iff.mpr hc]
  | qualifiedEntity hq hx hc =>
    rw [← h.contains_iff] at hc
    simp [target, Target.referent?, hq, hx, hc]
  | barePrimitive hb hp =>
    simp [target, Target.referent?, bareTarget, hb, Name.builtin?_of_isBare hb, hp]
  | bareCommon hb hp hm =>
    simp [target, Target.referent?, bareTarget, hb, Name.builtin?_of_isBare hb, hp,
      h.meansCommonType_iff.mp hm]
  | bareEntity hb hp hn he =>
    simp [target, Target.referent?, bareTarget, hb, Name.builtin?_of_isBare hb, hp,
      h.noCommonType_iff.mp hn, (h.known _).mpr he]
  | bareExtension hb hp hn he hk =>
    rw [← h.known] at he
    simp [target, Target.referent?, bareTarget, hb, Name.builtin?_of_isBare hb, hp,
      h.noCommonType_iff.mp hn, he, hk]
  | bareWithin hb hp hn he hk =>
    rw [← h.known] at he
    simp [target, Target.referent?, bareTarget, hb, Name.builtin?_of_isBare hb, hp,
      h.noCommonType_iff.mp hn, he, hk, Name.seenFrom]

private theorem denotes_of_bareTarget (h : index.Reflects ds) {n : Name} {x : Referent}
    (hb : n.isBare = true) (hx : (index.bareTarget ns n).referent? = some x) :
    Denotes ds ns (.entityOrCommon n) x := by
  unfold bareTarget at hx
  split at hx
  · next p hp =>
    cases hx
    exact .barePrimitive hb hp
  · next hp =>
    split at hx
    · next m hm =>
      cases hx
      exact .bareCommon hb hp (h.meansCommonType_iff.mpr hm)
    · next hn =>
      have hn' := h.noCommonType_iff.mpr hn
      split at hx
      · next he =>
        cases hx
        exact .bareEntity hb hp hn' ((h.known n).mp he)
      · next he =>
        have he' := mt (h.known n).mpr he
        split at hx
        · next hk =>
          cases hx
          exact .bareExtension hb hp hn' he' hk
        · next hk =>
          simp only [Target.referent?, Name.seenFrom, hb, if_true, Option.some.injEq] at hx
          subst hx
          exact .bareWithin hb hp hn' he' (by simpa using hk)

private theorem denotes_common_of_target (h : index.Reflects ds) {n : Name} {x : Referent}
    (hx : (index.target ns (.common n)).referent? = some x) : Denotes ds ns (.common n) x := by
  simp only [target] at hx
  by_cases hb : n.isBare = true
  · simp only [commonType?, hb, if_true] at hx
    split at hx
    · next m hm =>
      cases hx
      exact .commonBare hb (h.meansCommonType_iff.mpr hm)
    · next hn =>
      split at hx
      · next p hp =>
        cases hx
        exact .commonPrimitive hb (h.noCommonType_iff.mpr hn) hp
      · cases hx
  · have hq : n.isBare = false := by simpa using hb
    by_cases hc : index.commonTypes.contains n = true
    · simp only [commonType?, hq, hc, Bool.false_eq_true, if_true, if_false] at hx
      cases hx
      exact .commonQualified hq (h.contains_iff.mp hc)
    · simp only [commonType?, hq, hc, Bool.false_eq_true, if_false] at hx
      split at hx <;> cases hx

private theorem denotes_entityOrCommon_of_target (h : index.Reflects ds) {n : Name} {x : Referent}
    (hx : (index.target ns (.entityOrCommon n)).referent? = some x) :
    Denotes ds ns (.entityOrCommon n) x := by
  simp only [target] at hx
  split at hx
  · next id hid =>
    unfold builtinTarget at hx
    split at hx
    · next p hp =>
      cases hx
      exact .builtinPrimitive hid hp
    · next hp =>
      cases hx
      exact .builtinExtension hid hp
  · next hid =>
    by_cases hb : n.isBare = true
    · rw [if_pos hb] at hx
      exact h.denotes_of_bareTarget hb hx
    · rw [if_neg hb] at hx
      have hq : n.isBare = false := by simpa using hb
      split at hx
      · next hc =>
        cases hx
        exact .qualifiedCommon hq hid (h.contains_iff.mp hc)
      · next hc =>
        cases hx
        exact .qualifiedEntity hq hid (mt h.contains_iff.mpr hc)

/-- Looking up a reference gives what it denotes. -/
theorem denotes_iff (h : index.Reflects ds) {r : TypeRef} {x : Referent} :
    Denotes ds ns r x ↔ (index.target ns r).referent? = some x := by
  refine ⟨h.referent?_of_denotes, fun hx ↦ ?_⟩
  cases r with
  | primitive p =>
    cases hx
    exact .primitive p
  | extension id =>
    cases hx
    exact .extension id
  | entity n =>
    cases hx
    exact .entity ((meansEntityType_iff h.known).mpr rfl)
  | common n => exact h.denotes_common_of_target hx
  | entityOrCommon n => exact h.denotes_entityOrCommon_of_target hx

end Index.Reflects

end PolicySchema.Resolve
