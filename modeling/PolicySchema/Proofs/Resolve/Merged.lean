import Mathlib.Data.List.Flatten
import Mathlib.Data.List.Nodup
import PolicySchema.Proofs.Merge
import PolicySchema.Proofs.Resolve.Framing
import PolicySchema.Proofs.Resolve.Preserved

/-!
# Resolving several schemas is resolving one

Schemas that declare different things, and give no namespace two texts for one annotation, have the
index of the one schema that they are merged into, and so have the same schemas in any other order
(`Index.collect_mergeAll`, `Index.collect_perm`). So they are resolved alike (`resolveAll_merged`).
Schemas of which two declare the same are resolved in no order. Of different texts for one
annotation of a namespace the last is kept (`resolveAll_annotations`).
-/

namespace PolicySchema.Resolve

/-! ### Declarations of one schema -/

private def keyNamespace : Name ⊕ Name ⊕ Uid → Option Name
  | .inl n => n.enclosing?
  | .inr (.inl n) => n.enclosing?
  | .inr (.inr uid) => uid.type.enclosing?

private theorem keyNamespace_of_mem {ns : Option Name} {d : Namespace} {x : Declared}
    (h : x ∈ declaredIn ns d) : keyNamespace x.key = ns := by
  simp only [declaredIn, List.mem_append, List.mem_map] at h
  obtain (⟨e, -, rfl⟩ | ⟨e, -, rfl⟩) | ⟨e, -, rfl⟩ := h <;>
    simp only [Declared.key, keyNamespace, actionEntityType, Name.enclosing?_under]

private theorem nodup_keys_declaredIn (ns : Option Name) (d : Namespace) :
    ((declaredIn ns d).map Declared.key).Nodup := by
  have nodup {κ α : Type} [Ord κ] [Std.LawfulEqOrd κ] (t : Table κ α) (key : κ → Name ⊕ Name ⊕ Uid)
      (hkey : Function.Injective key) : (t.entries.map fun e ↦ key e.1).Nodup := by
    have hkeys := t.keys_nodup.map hkey
    rwa [Table.keys, List.map_map] at hkeys
  have hcommon := nodup d.commonTypes (fun id ↦ .inl (Name.under ns id)) fun a b h ↦
    (Name.under_inj.mp (Sum.inl.inj h)).2
  have hentity := nodup d.entityTypes (fun id ↦ .inr (.inl (Name.under ns id))) fun a b h ↦
    (Name.under_inj.mp (Sum.inl.inj (Sum.inr.inj h))).2
  have haction := nodup d.actions (fun id ↦ .inr (.inr ⟨actionEntityType ns, id⟩)) fun a b h ↦
    congrArg Uid.id (Sum.inr.inj (Sum.inr.inj h))
  rw [declaredIn, List.map_append, List.map_append, List.map_map, List.map_map, List.map_map]
  refine List.nodup_append.mpr ⟨List.nodup_append.mpr ⟨hcommon, hentity, ?_⟩, haction, ?_⟩
  · simp only [List.mem_map, Function.comp_apply, Declared.key]
    rintro _ ⟨_, _, rfl⟩ _ ⟨_, _, rfl⟩ ⟨⟩
  · simp only [List.mem_append, List.mem_map, Function.comp_apply, Declared.key]
    rintro _ (⟨_, _, rfl⟩ | ⟨_, _, rfl⟩) _ ⟨_, _, rfl⟩ ⟨⟩

/-- A schema declares nothing twice: what it declares under different names or in different
namespaces has different full names. -/
theorem declaredOnce_singleton (s : Schema) : DeclaredOnce (declared [s]) := by
  have hpairwise : s.namespaces.entries.Pairwise fun a b ↦ a.1 ≠ b.1 :=
    List.pairwise_map.mp s.namespaces.keys_nodup
  rw [DeclaredOnce, declared, List.flatMap_singleton, List.map_flatMap, List.nodup_flatMap]
  refine ⟨fun e _ ↦ nodup_keys_declaredIn e.1 e.2, hpairwise.imp fun hne k hk hk' ↦ hne ?_⟩
  obtain ⟨x, hx, rfl⟩ := List.mem_map.mp hk
  obtain ⟨y, hy, hkey⟩ := List.mem_map.mp hk'
  rw [← keyNamespace_of_mem hx, ← keyNamespace_of_mem hy, hkey]

/-- No two of the schemas declare the same. -/
def DeclareApart (schemas : List Schema) : Prop :=
  schemas.Pairwise fun s t ↦ ∀ d ∈ declared [s], ∀ e ∈ declared [t], d.key ≠ e.key

private theorem declared_eq_flatMap (schemas : List Schema) :
    declared schemas = schemas.flatMap fun s ↦ declared [s] := by
  simp [declared]

/-- Schemas that declare different things declare nothing twice. -/
theorem declaredOnce_of_declareApart {schemas : List Schema} (h : DeclareApart schemas) :
    DeclaredOnce (declared schemas) := by
  rw [DeclaredOnce, declared_eq_flatMap, List.map_flatMap, List.nodup_flatMap]
  refine ⟨fun s _ ↦ declaredOnce_singleton s, h.imp fun hst k hk hk' ↦ ?_⟩
  obtain ⟨d, hd, rfl⟩ := List.mem_map.mp hk
  obtain ⟨e, he, hkey⟩ := List.mem_map.mp hk'
  exact hst d hd e he hkey.symm

/-! ### Declarations of merged schemas -/

-- Where no two items hold different values, the first value that is found is that of any item that
-- holds one.
private theorem findSome?_eq_some_iff {α β : Type} {l : List α} {f : α → Option β}
    (h : ∀ a ∈ l, ∀ b ∈ l, ∀ v w, f a = some v → f b = some w → v = w) {v : β} :
    l.findSome? f = some v ↔ ∃ a ∈ l, f a = some v := by
  constructor
  · exact List.exists_of_findSome?_eq_some
  · rintro ⟨a, ha, hv⟩
    have hsome : (l.findSome? f).isSome = true :=
      List.findSome?_isSome_iff.mpr ⟨a, ha, by simp [hv]⟩
    obtain ⟨w, hw⟩ := Option.isSome_iff_exists.mp hsome
    obtain ⟨b, hb, hbw⟩ := List.exists_of_findSome?_eq_some hw
    rw [hw, h b hb a ha w v hbw hv]

private def Declared.IsIn (s : Schema) : Declared → Prop
  | commonType n d =>
    ∃ id, n = Name.under d.ns id ∧ s.lookup? Namespace.commonTypes d.ns id = some d.declaration
  | entityType n d =>
    ∃ id, n = Name.under d.ns id ∧ s.lookup? Namespace.entityTypes d.ns id = some d.declaration
  | action uid d =>
    uid.type = actionEntityType d.ns ∧
      s.lookup? Namespace.actions d.ns uid.id = some d.declaration

private theorem mem_declared_iff_isIn {schemas : List Schema} {x : Declared} :
    x ∈ declared schemas ↔ ∃ s ∈ schemas, x.IsIn s := by
  rw [mem_declared_iff]
  refine exists_congr fun s ↦ and_congr_right fun _ ↦ ?_
  rcases x with ⟨n, t, ns⟩ | ⟨n, t, ns⟩ | ⟨⟨type, id⟩, t, ns⟩ <;>
    simp only [declaredIn, Declared.IsIn, Schema.lookup?, Option.bind_eq_some_iff,
      Table.find?_eq_some_iff, List.mem_append, List.mem_map] <;>
    grind

-- If two of the schemas cannot hold different declarations under a key, the schema that they are
-- merged into holds there what any of them holds.
private theorem lookup?_mergeAll_eq_some_iff {κ α : Type} [Ord κ]
    (field : Namespace → Table κ (Declaration α)) {schemas : List Schema} (ns : Option Name) (k : κ)
    (h : DeclaredOnce (declared schemas)) (declare : Declaration α → Declared)
    (hkey : ∀ v w, (declare v).key = (declare w).key) (hinj : Function.Injective declare)
    (hdeclare : ∀ s v, s.lookup? field ns k = some v → (declare v).IsIn s)
    (hfield : ∀ d e k, (field (d.merge e)).find? k = ((field d).find? k).or ((field e).find? k))
    (v : Declaration α) : (Schema.mergeAll schemas).lookup? field ns k = some v ↔
      ∃ s ∈ schemas, s.lookup? field ns k = some v := by
  rw [Schema.lookup?_mergeAll hfield]
  refine findSome?_eq_some_iff fun s hs t ht v w hv hw ↦ ?_
  refine hinj (List.inj_on_of_nodup_map h ?_ ?_ (hkey v w))
  · exact mem_declared_iff_isIn.mpr ⟨s, hs, hdeclare s v hv⟩
  · exact mem_declared_iff_isIn.mpr ⟨t, ht, hdeclare t w hw⟩

private theorem mem_declared_mergeAll_iff {schemas : List Schema}
    (h : DeclaredOnce (declared schemas)) {x : Declared} :
    x ∈ declared [.mergeAll schemas] ↔ x ∈ declared schemas := by
  simp only [mem_declared_iff_isIn, List.mem_singleton, exists_eq_left]
  cases x with
  | commonType n d =>
    have hfind (id : Identifier) := lookup?_mergeAll_eq_some_iff
      Namespace.commonTypes d.ns id h (fun v ↦ .commonType (Name.under d.ns id) ⟨v, d.ns⟩)
      (fun _ _ ↦ rfl) (by rintro _ _ ⟨⟩; rfl) (fun s v hv ↦ ⟨id, rfl, hv⟩)
      fun _ _ ↦ Table.find?_merge _ _
    simp only [Declared.IsIn, hfind]
    grind
  | entityType n d =>
    have hfind (id : Identifier) := lookup?_mergeAll_eq_some_iff
      Namespace.entityTypes d.ns id h (fun v ↦ .entityType (Name.under d.ns id) ⟨v, d.ns⟩)
      (fun _ _ ↦ rfl) (by rintro _ _ ⟨⟩; rfl) (fun s v hv ↦ ⟨id, rfl, hv⟩)
      fun _ _ ↦ Table.find?_merge _ _
    simp only [Declared.IsIn, hfind]
    grind
  | action uid d =>
    have hfind (id : String) := lookup?_mergeAll_eq_some_iff
      Namespace.actions d.ns id h (fun v ↦ .action ⟨actionEntityType d.ns, id⟩ ⟨v, d.ns⟩)
      (fun _ _ ↦ rfl) (by rintro _ _ ⟨⟩; rfl) (fun s v hv ↦ ⟨rfl, hv⟩)
      fun _ _ ↦ Table.find?_merge _ _
    simp only [Declared.IsIn, hfind]
    grind

/-! ### Annotations -/

/-- No two of the schemas give a namespace different texts for one annotation. -/
def NotesAgree (schemas : List Schema) : Prop :=
  ∀ s ∈ schemas, ∀ t ∈ schemas, ∀ ns key text text',
    s.lookup? Namespace.annotations ns key = some text →
    t.lookup? Namespace.annotations ns key = some text' → text = text'

namespace Index

private def note? (c : Collected) (ns : Option Name) (key : Identifier) : Option String :=
  (c.1.namespaces.find? ns).bind (·.find? key)

section

variable {c : Collected} {ns : Option Name} {key : Identifier}

private theorem note?_addNamespace (ns' : Option Name) (d : Namespace) :
    note? (addNamespace c (ns', d)) ns key =
      if ns = ns' then (d.annotations.find? key).or (note? c ns key) else note? c ns key := by
  rw [note?, namespaces_addNamespace, note?, addAnnotations]
  dsimp only
  rw [Table.find?_insert]
  split
  · next hns =>
    subst hns
    rw [Option.bind_some]
    refine (Table.find?_foldl_insert _ d.annotations.keys_nodup _ key).trans ?_
    rw [Table.find?]
    cases c.1.namespaces.find? ns <;> rfl
  · rfl

private theorem note?_addSchema (s : Schema) :
    note? (addSchema c s) ns key =
      (s.lookup? Namespace.annotations ns key).or (note? c ns key) := by
  have hfold (l : List (Option Name × Namespace)) (hl : (l.map Prod.fst).Nodup) (c : Collected) :
      note? (l.foldl addNamespace c) ns key =
        ((Table.lookup? ns l).bind fun d ↦ d.annotations.find? key).or (note? c ns key) := by
    induction l generalizing c with
    | nil => rfl
    | cons e rest ih =>
      obtain ⟨ns', d⟩ := e
      obtain ⟨hkey, hrest⟩ := List.nodup_cons.mp hl
      rw [List.foldl_cons, ih hrest, note?_addNamespace, Table.lookup?]
      by_cases hns : ns = ns'
      · subst hns
        have hnone : Table.lookup? ns rest = none := by
          refine Option.eq_none_iff_forall_ne_some.mpr fun v hv ↦ hkey ?_
          exact List.mem_map.mpr ⟨_, (Table.lookup?_eq_some_iff hrest).mp hv, rfl⟩
        simp [hnone]
      · simp [hns, Std.LawfulEqCmp.compare_eq_iff_eq]
  exact hfold s.namespaces.entries s.namespaces.keys_nodup c

private theorem note?_collect (schemas : List Schema) :
    note? (collect schemas) ns key =
      schemas.reverse.findSome? (·.lookup? Namespace.annotations ns key) := by
  have hfold (l : List Schema) (c : Collected) : note? (l.foldl addSchema c) ns key =
      (l.reverse.findSome? (·.lookup? Namespace.annotations ns key)).or (note? c ns key) := by
    induction l generalizing c with
    | nil => rfl
    | cons s rest ih =>
      rw [List.foldl_cons, ih, note?_addSchema, List.reverse_cons, List.findSome?_append,
        Option.or_assoc]
      simp
  rw [collect, hfold]
  exact Option.or_none

end

/-! ### Indices -/

section

variable {schemas others : List Schema}

private theorem Reflects.eq_of_mem_iff {index index' : Index} {ds ds' : List Declared}
    (h : index.Reflects ds) (h' : index'.Reflects ds') (hds : ∀ x, x ∈ ds' ↔ x ∈ ds)
    (hnamespaces : index'.namespaces = index.namespaces) : index' = index := by
  have hcommon : index'.commonTypes = index.commonTypes := Table.ext_find? fun n ↦
    Option.ext fun d ↦ by rw [h'.commonType, h.commonType, hds]
  have hentity : index'.entityTypes = index.entityTypes := Table.ext_find? fun n ↦
    Option.ext fun d ↦ by rw [h'.entityType, h.entityType, hds]
  have haction : index'.actions = index.actions := Table.ext_find? fun uid ↦
    Option.ext fun d ↦ by rw [h'.action, h.action, hds]
  have hknown : index'.known = index.known := KeySet.ext fun n ↦ by
    rw [h'.known, h.known]
    simp only [HasEntityType, hds]
  cases index
  cases index'
  simp only at hcommon hentity haction hknown hnamespaces
  rw [hcommon, hentity, haction, hknown, hnamespaces]

private theorem collect_congr
    (honce : DeclaredOnce (declared schemas)) (hnotes : NotesAgree schemas)
    (honce' : DeclaredOnce (declared others)) (hnotes' : NotesAgree others)
    (hdeclared : ∀ x, x ∈ declared others ↔ x ∈ declared schemas)
    (hnamespaces : ∀ ns, (∃ s ∈ others, s.namespaces.contains ns = true) ↔
      ∃ s ∈ schemas, s.namespaces.contains ns = true)
    (hannotations : ∀ ns key text,
      (∃ s ∈ others, s.lookup? Namespace.annotations ns key = some text) ↔
        ∃ s ∈ schemas, s.lookup? Namespace.annotations ns key = some text) :
    collect others = collect schemas := by
  have hnil := (collect_eq_nil_iff schemas).mpr honce
  have hnil' := (collect_eq_nil_iff others).mpr honce'
  have note_iff {l : List Schema} (hl : NotesAgree l) (ns : Option Name) (key : Identifier)
      (text : String) : note? (collect l) ns key = some text ↔
        ∃ s ∈ l, s.lookup? Namespace.annotations ns key = some text := by
    rw [note?_collect, findSome?_eq_some_iff]
    · simp only [List.mem_reverse]
    · intro s hs t ht
      exact hl s (List.mem_reverse.mp hs) t (List.mem_reverse.mp ht) ns key
  have hnote (ns : Option Name) (key : Identifier) :
      note? (collect others) ns key = note? (collect schemas) ns key := Option.ext fun text ↦ by
    rw [note_iff hnotes', note_iff hnotes, hannotations]
  refine Prod.ext ?_ (hnil'.trans hnil.symm)
  apply (reflects_collect hnil).eq_of_mem_iff (reflects_collect hnil') hdeclared
  apply Table.ext_find?
  intro ns
  have hcontains : (collect others).1.namespaces.contains ns =
      (collect schemas).1.namespaces.contains ns := by
    rw [Bool.eq_iff_iff, contains_namespaces_collect, contains_namespaces_collect, hnamespaces]
  have hnote := hnote ns
  simp only [note?] at hnote
  simp only [Table.contains] at hcontains
  cases hfound : (collect others).1.namespaces.find? ns <;>
    cases hfound' : (collect schemas).1.namespaces.find? ns <;>
    simp only [hfound, hfound', Option.isSome_some, Option.isSome_none, reduceCtorEq] at hcontains
  · rfl
  · simp only [hfound, hfound', Option.bind_some] at hnote
    rw [Table.ext_find? hnote]

/-- Schemas that declare different things, and agree on annotations, have the index of the schema
that they are merged into. -/
theorem collect_mergeAll (h : DeclareApart schemas) (hnotes : NotesAgree schemas) :
    collect [.mergeAll schemas] = collect schemas := by
  have honce := declaredOnce_of_declareApart h
  have hlookup (ns : Option Name) (key : Identifier) (text : String) :
      (Schema.mergeAll schemas).lookup? Namespace.annotations ns key = some text ↔
        ∃ s ∈ schemas, s.lookup? Namespace.annotations ns key = some text := by
    rw [Schema.lookup?_mergeAll fun _ _ ↦ Table.find?_merge _ _]
    exact findSome?_eq_some_iff fun s hs t ht ↦ hnotes s hs t ht ns key
  apply collect_congr honce hnotes (declaredOnce_singleton _)
  · intro s hs t ht ns key text text' htext htext'
    obtain rfl := List.mem_singleton.mp hs
    obtain rfl := List.mem_singleton.mp ht
    exact Option.some.inj (htext.symm.trans htext')
  · exact fun x ↦ mem_declared_mergeAll_iff honce
  · intro ns
    simp only [List.mem_singleton, exists_eq_left, Schema.contains_namespaces_mergeAll]
  · intro ns key text
    simp only [List.mem_singleton, exists_eq_left, hlookup]

/-- Schemas that declare different things, and agree on annotations, have the same index in any
order. -/
theorem collect_perm (h : DeclareApart schemas) (hnotes : NotesAgree schemas)
    (hperm : others.Perm schemas) : collect others = collect schemas := by
  have honce := declaredOnce_of_declareApart h
  have hdeclared : (declared others).Perm (declared schemas) := hperm.flatMap_right _
  apply collect_congr honce hnotes ((hdeclared.map _).nodup_iff.mpr honce)
  · exact fun s hs t ht ↦ hnotes s (hperm.mem_iff.mp hs) t (hperm.mem_iff.mp ht)
  · exact fun x ↦ hdeclared.mem_iff
  · exact fun ns ↦ exists_congr fun s ↦ and_congr_left fun _ ↦ hperm.mem_iff
  · exact fun ns key text ↦ exists_congr fun s ↦ and_congr_left fun _ ↦ hperm.mem_iff

end

end Index

end PolicySchema.Resolve

namespace PolicySchema

open Resolve

/-- The problems that are reported are those with repeated declarations, and others. -/
theorem onlyAdds_resolveAll (checks : StackChecks) (extensions : Extensions)
    (schemas : List Schema) : OnlyAdds (Index.collect schemas).2
      (reported (resolveAllUnder checks extensions schemas)) := by
  let index := (Index.collect schemas).1
  have hframed : Framed 0 (resolveIndex index extensions index.commonTypes.keys) _ :=
    framed_resolveIndex _
  rw [resolveAllUnder, reported_outcome]
  exact (hframed _).rel.problems

/-- Schemas that declare different things, and agree on annotations, are resolved to what the schema
that they are merged into is resolved to, or have the same problems, in whatever order they are. If
two schemas declare the same, then in any order there is a problem about it. A single schema never
has such a problem. All this is so whatever is found of the stack. -/
theorem resolveAll_merged (checks : StackChecks) (extensions : Extensions)
    (schemas : List Schema) :
    (DeclareApart schemas → NotesAgree schemas →
      resolveAllUnder checks extensions schemas =
        (Schema.mergeAll schemas).resolveUnder checks extensions ∧
      ∀ others, others.Perm schemas →
        resolveAllUnder checks extensions others = resolveAllUnder checks extensions schemas) ∧
    (∀ s t d e, [s, t].Sublist schemas → d ∈ declared [s] → e ∈ declared [t] → d.key = e.key →
      ∀ others, others.Perm schemas →
        ∃ problems, resolveAllUnder checks extensions others = .error problems ∧
          ∃ p ∈ problems, p.cause.repeated? = some d.key) ∧
    ∀ (s : Schema) problems, s.resolveUnder checks extensions = .error problems →
      ∀ p ∈ problems, p.cause.repeated? = none := by
  refine ⟨fun happart hnotes ↦ ⟨?_, fun others hperm ↦ ?_⟩, ?_, ?_⟩
  · rw [Schema.resolveUnder, resolveAllUnder, resolveAllUnder,
      Index.collect_mergeAll happart hnotes]
  · rw [resolveAllUnder, resolveAllUnder, Index.collect_perm happart hnotes hperm]
  · intro s t d e hsub hd he hkey others hperm
    have htwice : 2 ≤ (declared others).countP (·.key = d.key) := by
      have hcount : (declared others).countP (·.key = d.key) =
          (declared schemas).countP (·.key = d.key) := (hperm.flatMap_right _).countP_eq _
      have hle : (declared [s] ++ declared [t]).countP (·.key = d.key) ≤
          (declared schemas).countP (·.key = d.key) := by
        rw [declared_eq_flatMap schemas]
        simpa using (hsub.flatMap fun s ↦ declared [s]).countP_le (p := (·.key = d.key))
      have hs : 0 < (declared [s]).countP (·.key = d.key) :=
        List.countP_pos_iff.mpr ⟨d, hd, by simp only [decide_true]⟩
      have ht : 0 < (declared [t]).countP (·.key = d.key) :=
        List.countP_pos_iff.mpr ⟨e, he, by simp only [hkey, decide_true]⟩
      rw [List.countP_append] at hle
      omega
    obtain ⟨p, hp, hcause⟩ := Index.exists_repeated_iff.mpr htwice
    have hreported := (onlyAdds_resolveAll checks extensions others).subset hp
    cases hresult : resolveAllUnder checks extensions others with
    | error problems =>
      exact ⟨problems, rfl, p, by simpa [hresult, reported] using hreported, hcause⟩
    | ok r => simp [hresult, reported] at hreported
  · intro s problems hs p hp
    have hnil := (Index.collect_eq_nil_iff [s]).mpr (declaredOnce_singleton s)
    have hadds := onlyAdds_resolveAll checks extensions [s]
    rw [hnil, show resolveAllUnder checks extensions [s] = .error problems from hs] at hadds
    obtain ⟨more, hmore, hrepeated⟩ := hadds
    obtain rfl : problems = more := hmore
    exact hrepeated p hp

-- A schema that declares an entity type with a parent or without in the namespace `Market`, which
-- it annotates.
private def marketWith (id : Identifier) (parents : List Name) : Schema :=
  ⟨.ofList [(some (.bare ⟨"Market", by decide⟩), { Namespace.empty with
    annotations := .ofList [(⟨"note", by decide⟩, "A market.")]
    entityTypes := .ofList [(id, ⟨.standard parents none none, ∅, none⟩)] })]⟩

private theorem notesAgree_of_text {schemas : List Schema} (text : String)
    (h : ∀ s ∈ schemas, ∀ d ∈ s.namespaces.entries, ∀ note ∈ d.2.annotations.entries,
      note.2 = text) : NotesAgree schemas := by
  have held {s : Schema} (hs : s ∈ schemas) {ns : Option Name} {key : Identifier} {text' : String}
      (hfound : s.lookup? Namespace.annotations ns key = some text') : text' = text := by
    obtain ⟨d, hd, hnote⟩ := Option.bind_eq_some_iff.mp hfound
    rw [Table.find?_eq_some_iff] at hd hnote
    exact h s hs _ hd _ hnote
  exact fun s hs t ht ns key text' text'' hfound hfound' ↦
    (held hs hfound).trans (held ht hfound').symm

/-- Two schemas of one namespace, of which the first needs the second, are resolved in either order
as one schema. With one of them twice there is a problem. The first by itself has a problem too, but
not with a repeated declaration. -/
theorem resolveAll_merged_market :
    let market : Option Name := some (.bare ⟨"Market", by decide⟩)
    let item : Identifier := ⟨"Item", by decide⟩
    let order : Identifier := ⟨"Order", by decide⟩
    let items : Schema := marketWith item []
    let orders : Schema := marketWith order [.bare item]
    (∃ r, (Schema.mergeAll [orders, items]).resolve .all = .ok r ∧
      r.entityTypes.keys = [.under market item, .under market order]) ∧
      resolveAll .all [orders, items] = (Schema.mergeAll [orders, items]).resolve .all ∧
      resolveAll .all [items, orders] = resolveAll .all [orders, items] ∧
      (∃ problems, resolveAll .all [items, orders, items] = .error problems ∧
        ∃ p ∈ problems, p.cause.repeated? = some (.inr (.inl (.under market item)))) ∧
      ∃ problems, orders.resolve .all = .error problems ∧
        ∀ p ∈ problems, p.cause.repeated? = none := by
  intro market item order items orders
  have happart : DeclareApart [orders, items] := by
    unfold DeclareApart
    decide +kernel
  have hnotes : NotesAgree [orders, items] := notesAgree_of_text "A market." (by decide +kernel)
  obtain ⟨hmerged, hperm⟩ := (resolveAll_merged [] .all [orders, items]).1 happart hnotes
  have hkeys : ((Schema.mergeAll [orders, items]).resolve .all).toOption.map (·.entityTypes.keys) =
      some [.under market item, .under market order] := by decide +kernel
  obtain ⟨r, hr, hkeys⟩ := Option.map_eq_some_iff.mp hkeys
  rw [Except.toOption_eq_some_iff] at hr
  refine ⟨⟨r, hr, hkeys⟩, hmerged, hperm [items, orders] (.swap ..), ?_, ?_⟩
  · let d : Declared := .entityType (.under market item) ⟨⟨.standard [] none none, ∅, none⟩, market⟩
    have hd : d ∈ declared [items] := by decide +kernel
    refine (resolveAll_merged [] .all [orders, items, items]).2.1 items items d d ?_ hd hd rfl _ ?_
    · exact List.sublist_cons_self ..
    · exact .swap ..
  · cases horders : orders.resolve .all with
    | error problems =>
      exact ⟨problems, rfl, (resolveAll_merged [] .all []).2.2 orders problems horders⟩
    | ok r =>
      have hfails : (orders.resolve .all).toOption.isSome = false := by decide +kernel
      rw [horders] at hfails
      cases hfails

/-- The text that a resolved schema has for an annotation of a namespace. -/
def ResolvedSchema.note? (r : ResolvedSchema) (ns : Option Name) (key : Identifier) :
    Option String :=
  (r.namespaces.find? ns).bind (·.find? key)

/-- Schemas that resolve keep every annotation of a namespace, with the text of the last schema that
gives it one. So no text is lost exactly if no two of the schemas give different texts: a schema
that gives another text replaces the earlier one, and no problem is reported. -/
theorem resolveAll_annotations {checks : StackChecks} {extensions : Extensions}
    {schemas : List Schema} {r : ResolvedSchema}
    (h : resolveAllUnder checks extensions schemas = .ok r) :
    (∀ ns key, r.note? ns key =
      schemas.reverse.findSome? (·.lookup? Namespace.annotations ns key)) ∧
    ((∀ s ∈ schemas, ∀ ns key text, s.lookup? Namespace.annotations ns key = some text →
      r.note? ns key = some text) ↔ NotesAgree schemas) := by
  have hnote (ns : Option Name) (key : Identifier) : r.note? ns key =
      schemas.reverse.findSome? (·.lookup? Namespace.annotations ns key) := by
    rw [ResolvedSchema.note?, (completed_of_resolveAll h).namespaces]
    exact Index.note?_collect schemas
  refine ⟨hnote, fun hkept s hs t ht ns key text text' htext htext' ↦ ?_, fun hagree ↦ ?_⟩
  · have heq := (hkept s hs ns key text htext).symm.trans (hkept t ht ns key text' htext')
    exact Option.some.inj heq
  · intro s hs ns key text htext
    rw [hnote]
    refine (findSome?_eq_some_iff fun s hs t ht ↦ ?_).mpr ⟨s, List.mem_reverse.mpr hs, htext⟩
    exact hagree s (List.mem_reverse.mp hs) t (List.mem_reverse.mp ht) ns key

private def marketNoted (key : Identifier) (text : String) : Schema :=
  ⟨.ofList [(some (.bare ⟨"Market", by decide⟩),
    { Namespace.empty with annotations := .ofList [(key, text)] })]⟩

/-- Two schemas that give different texts for one annotation resolve, and the text of the first is
lost. That of an annotation that only one of them gives is kept. -/
theorem resolveAll_annotations_market :
    let market : Option Name := some (.bare ⟨"Market", by decide⟩)
    let note : Identifier := ⟨"note", by decide⟩
    let owner : Identifier := ⟨"owner", by decide⟩
    let schemas := [marketNoted note "first", marketNoted owner "us", marketNoted note "second"]
    ∃ r, resolveAll .all schemas = .ok r ∧ r.note? market note = some "second" ∧
      r.note? market owner = some "us" ∧ ¬ NotesAgree schemas ∧
      ¬ ∀ s ∈ schemas, ∀ ns key text, s.lookup? Namespace.annotations ns key = some text →
        r.note? ns key = some text := by
  intro market note owner schemas
  have hok : (resolveAll .all schemas).toOption.isSome = true := by decide +kernel
  obtain ⟨r, hr⟩ := Option.isSome_iff_exists.mp hok
  rw [Except.toOption_eq_some_iff] at hr
  obtain ⟨hnote, hkept⟩ := resolveAll_annotations hr
  have hfirst : (marketNoted note "first").lookup? Namespace.annotations market note =
      some "first" := by decide +kernel
  have hsecond : (marketNoted note "second").lookup? Namespace.annotations market note =
      some "second" := by decide +kernel
  have hdiffer : ¬ NotesAgree schemas := fun hagree ↦ by
    have htexts : "first" = "second" :=
      hagree _ (by simp [schemas]) _ (by simp [schemas]) market note _ _ hfirst hsecond
    simp at htexts
  refine ⟨r, hr, ?_, ?_, hdiffer, fun hall ↦ hdiffer (hkept.mp hall)⟩
  · rw [hnote]
    decide +kernel
  · rw [hnote]
    decide +kernel

end PolicySchema
