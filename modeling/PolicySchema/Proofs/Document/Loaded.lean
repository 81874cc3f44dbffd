import PolicySchema.Proofs.Document.RoundTrip
import PolicySchema.Proofs.Unicode.Utf8

/-!
# What is read from documents can be written

However a document spells a schema, what is read has no places, its types can be written where they
stand, and each of its references has a form of its own. So a schema that was read is written, and
what is written is read as the same schema (`readBytes_written`).
-/

namespace PolicySchema

open Text (entityTypeExprs actionTypeExprs)

/-- The reference is read as itself from where it is written. -/
def TypeRef.IsDocumented (r : TypeRef) : Prop := r.IsKnown ∧ r.documented = r

/-- One of the attributes, or one inside their types, is directly a record with annotations of its
own if that is so for one that is listed. -/
theorem Fields.hasAnnotatedAttribute_iff {ρ : Type} : ∀ {f : Fields ρ}, f.HasAnnotatedAttribute ↔
    ∃ e ∈ f.toList, e.2.type.IsAnnotatedRecord ∨ e.2.type.HasAnnotatedAttribute
  | .nil => by simp [HasAnnotatedAttribute, toList]
  | .cons _ _ _ _ rest => by
    rw [HasAnnotatedAttribute, toList, List.exists_mem_cons_iff, rest.hasAnnotatedAttribute_iff,
      or_assoc]

namespace Document

variable {path : Pointer} {place : Place}

/-! ### References -/

private theorem isDocumented_of_ne {n : Name} (h : ¬ fixedTypes.contains n.text = true) :
    (TypeRef.common n).IsDocumented := by
  refine ⟨trivial, ?_⟩
  rw [TypeRef.documented, if_neg h]

private theorem ne_of_ofName? {name : String} (h : Primitive.ofName? name = none) :
    name ≠ "String" ∧ name ≠ "Long" ∧ name ≠ "Bool" ∧ name ≠ "Boolean" := by
  refine ⟨?_, ?_, ?_, ?_⟩ <;> rintro rfl <;> exact absurd h (by decide)

private theorem isDocumented_of_refAt {o : TypeObject} {r : TypeRef}
    (htype : o.type ≠ "Set" ∧ o.type ≠ "Record") (h : refAt path o = .ok r) :
    r.IsDocumented := by
  unfold refAt at h
  split at h
  · obtain ⟨name, -, h⟩ := Except.bind_eq_ok_iff.mp h
    obtain ⟨n, -, rfl⟩ := Except.map_eq_ok_iff.mp h
    exact ⟨trivial, rfl⟩
  · next hentity =>
    split at h
    · obtain ⟨name, -, h⟩ := Except.bind_eq_ok_iff.mp h
      obtain ⟨n, -, rfl⟩ := Except.map_eq_ok_iff.mp h
      exact ⟨trivial, rfl⟩
    · next heither =>
      split at h
      · obtain ⟨name, -, h⟩ := Except.bind_eq_ok_iff.mp h
        split at h
        · next hknown =>
          obtain ⟨id, hid, rfl⟩ := Except.map_eq_ok_iff.mp h
          refine ⟨?_, rfl⟩
          rwa [TypeRef.IsKnown, text_of_identifierAt hid]
        · cases h
      · next hextension =>
        split at h
        · cases h
          exact ⟨trivial, rfl⟩
        · next hprimitive =>
          obtain ⟨n, hn, rfl⟩ := Except.map_eq_ok_iff.mp h
          apply isDocumented_of_ne
          rw [text_of_nameAt hn]
          simp [fixedTypes, htype, hentity, heither, hextension, ne_of_ofName? hprimitive]

/-! ### Types -/

-- What is known of a type that is read at a place, if the given number of sets and records may
-- enclose one another in it.
private structure Loaded (room : Nat) (place : Place) (t : TypeExpr TypeRef) : Prop where
  depth : t.depth ≤ room
  own : place.isDeclaring = true → ¬ t.IsAnnotatedRecord
  inside : ¬ t.HasAnnotatedAttribute
  wellFormed : t.WellFormed TypeRef.IsDocumented

private def Loads (room : Nat) (read : TypeReader) : Prop :=
  ∀ place path o t, read place path o = .ok t → Loaded room place t

section

variable {room : Nat} {inner : TypeReader} {o : TypeObject} {t : TypeExpr TypeRef}

private theorem loaded_setAt (hinner : Loads room inner) (h : setAt inner path o = .ok t) :
    Loaded (room + 1) place t := by
  unfold setAt at h
  split at h
  · cases h
  · obtain ⟨element, helement, ⟨⟩⟩ := Except.bind_eq_ok_iff.mp h
    have hloaded := hinner _ _ _ _ helement
    exact ⟨Nat.succ_le_succ hloaded.depth, fun _ h ↦ h, hloaded.inside, hloaded.wellFormed⟩

-- The attributes of a record are read one by one, and the record has annotations of its own only
-- where it declares nothing.
private theorem loaded_recordAt (hinner : Loads room inner)
    (h : recordAt inner place path o = .ok t) : Loaded (room + 1) place t := by
  unfold recordAt at h
  split at h
  · cases h
  · obtain ⟨fields, hfields, h⟩ := Except.bind_eq_ok_iff.mp h
    have hrecord : ∃ notes, (place.isDeclaring = true → notes = ∅) ∧
        t = .record (Fields.ofTable (Table.ofList fields)) notes := by
      dsimp only at h
      split at h
      · cases h
        exact ⟨∅, fun _ ↦ rfl, rfl⟩
      · next hplace =>
        obtain ⟨notes, -, ⟨⟩⟩ := Except.bind_eq_ok_iff.mp h
        exact ⟨notes, fun h ↦ absurd h hplace, rfl⟩
    obtain ⟨notes, hnotes, rfl⟩ := hrecord
    have hlist : (Fields.ofTable (Table.ofList fields)).toList = (Table.ofList fields).entries :=
      Fields.toList_ofList _
    have hattribute : ∀ e ∈ (Fields.ofTable (Table.ofList fields)).toList,
        Loaded room .attribute e.2.type := by
      intro e he
      rw [hlist] at he
      obtain ⟨path, key, o, hread⟩ := exists_of_membersAt hfields (Table.mem_of_mem_ofList he)
      obtain ⟨notes, -, hread⟩ := Except.bind_eq_ok_iff.mp hread
      obtain ⟨type, htype, ⟨⟩⟩ := Except.bind_eq_ok_iff.mp hread
      exact hinner _ _ _ _ htype
    constructor
    · exact Nat.succ_le_succ (Fields.depth_le_iff.mpr fun e he ↦ (hattribute e he).depth)
    · exact fun hplace ↦ not_not_intro (hnotes hplace)
    · rw [TypeExpr.HasAnnotatedAttribute, Fields.hasAnnotatedAttribute_iff]
      rintro ⟨e, he, hown | hinside⟩
      · exact (hattribute e he).own rfl hown
      · exact (hattribute e he).inside hinside
    · refine ⟨?_, Fields.wellFormed_iff.mpr fun e he ↦ (hattribute e he).wellFormed⟩
      rw [hlist]
      exact (Table.ofList fields).ascending

private theorem loaded_leaf (htype : ¬ (o.type = "Set" || o.type = "Record") = true)
    (h : .leaf <$> refAt path o = .ok t) : Loaded room place t := by
  obtain ⟨r, hr, rfl⟩ := Except.map_eq_ok_iff.mp h
  simp only [Bool.or_eq_true, decide_eq_true_eq, not_or] at htype
  exact ⟨Nat.zero_le _, fun _ h ↦ h, fun h ↦ h, isDocumented_of_refAt htype hr⟩

private theorem loads_typeUpTo (room : Nat) : Loads room (typeUpTo room) := by
  induction room with
  | zero =>
    intro place path o t h
    obtain ⟨-, -, h⟩ := Except.bind_eq_ok_iff.mp h
    split at h
    · cases h
    · next htype => exact loaded_leaf htype h
  | succ room ih =>
    intro place path o t h
    obtain ⟨-, -, h⟩ := Except.bind_eq_ok_iff.mp h
    split at h
    · dsimp only at h
      split at h
      · exact loaded_setAt ih h
      · exact loaded_recordAt ih h
    · next htype => exact loaded_leaf htype h

end

private theorem Loaded.writable {t : TypeExpr TypeRef} (h : Loaded TypeExpr.maxDepth place t) :
    Writable place t := ⟨h.depth, h.own, h.inside⟩

private theorem loaded_optionalTypeAt {key : String} {o : Option TypeObject}
    {t : Option (TypeExpr TypeRef)} (h : optionalTypeAt path key o = .ok t) :
    ∀ u ∈ t, Loaded TypeExpr.maxDepth .inner u := by
  unfold optionalTypeAt at h
  split at h
  · cases h
    exact nofun
  · obtain ⟨u, hu, rfl⟩ := Except.map_eq_ok_iff.mp h
    rintro _ ⟨⟩
    exact loads_typeUpTo _ _ _ _ _ hu

private theorem loaded_shapeAt {o : Option TypeObject} {shape : Option (RecordType TypeRef)}
    (h : shapeAt path o = .ok shape) :
    ∀ r ∈ shape, Loaded TypeExpr.maxDepth .inner r.toType := by
  obtain ⟨t, ht, h⟩ := Except.bind_eq_ok_iff.mp h
  have hloaded := loaded_optionalTypeAt ht
  split at h
  · cases h
    exact nofun
  · next u =>
    split at h
    · next r hr =>
      cases h
      rintro _ ⟨⟩
      cases u <;> cases hr
      exact hloaded _ rfl
    · cases h

/-! ### Declarations -/

private theorem nodup_enumAt {values : List String} {e : EntityType}
    (h : enumAt path values = .ok e) :
    ∃ first others, e = .enumerated first others ∧ (first :: others).Nodup := by
  unfold enumAt at h
  split at h
  · cases h
  · next hnone =>
    split at h
    · cases h
    · next first others =>
      cases h
      exact ⟨first, others, rfl, (firstRepeated?_eq_none_iff.mp hnone).1⟩

private theorem loaded_entityBodyAt {o : EntityTypeObject} {e : EntityType}
    (h : entityBodyAt path o = .ok e) :
    e.WellFormed TypeRef.IsDocumented ∧ ∀ t ∈ entityTypeExprs e, Writable .inner t := by
  unfold entityBodyAt at h
  split at h
  · split at h
    · cases h
    · obtain ⟨first, others, rfl, hnodup⟩ := nodup_enumAt h
      exact ⟨hnodup, nofun⟩
  · obtain ⟨memberOf, -, h⟩ := Except.bind_eq_ok_iff.mp h
    obtain ⟨shape, hshape, h⟩ := Except.bind_eq_ok_iff.mp h
    obtain ⟨tags, htags, ⟨⟩⟩ := Except.bind_eq_ok_iff.mp h
    have hshape := loaded_shapeAt hshape
    have htags := loaded_optionalTypeAt htags
    refine ⟨⟨fun r hr ↦ (hshape r hr).wellFormed, fun t ht ↦ (htags t ht).wellFormed⟩, ?_⟩
    simp only [entityTypeExprs, List.forall_mem_append, Option.mem_toList]
    constructor
    · intro t ht
      obtain ⟨r, hr, rfl⟩ := Option.map_eq_some_iff.mp ht
      exact (hshape r hr).writable
    · exact fun t ht ↦ (htags t ht).writable

private theorem loaded_entityTypeAt {key : String} {o : EntityTypeObject}
    {e : Identifier × Declaration EntityType} (h : entityTypeAt path key o = .ok e) :
    (e.2.body.WellFormed TypeRef.IsDocumented ∧
      ∀ t ∈ entityTypeExprs e.2.body, Writable .inner t) ∧ e.2.location = none := by
  obtain ⟨id, -, h⟩ := Except.bind_eq_ok_iff.mp h
  obtain ⟨notes, -, h⟩ := Except.bind_eq_ok_iff.mp h
  obtain ⟨body, hbody, ⟨⟩⟩ := Except.bind_eq_ok_iff.mp h
  exact ⟨loaded_entityBodyAt hbody, rfl⟩

private theorem loaded_appliesToAt {o : Option AppliesToObject} {block : Option AppliesTo}
    (h : appliesToAt path o = .ok block) :
    ∀ a ∈ block, ∀ t ∈ a.context, Loaded TypeExpr.maxDepth .inner t := by
  unfold appliesToAt at h
  split at h
  · cases h
    exact nofun
  · obtain ⟨principals, -, h⟩ := Except.bind_eq_ok_iff.mp h
    obtain ⟨resources, -, h⟩ := Except.bind_eq_ok_iff.mp h
    obtain ⟨context, hcontext, ⟨⟩⟩ := Except.bind_eq_ok_iff.mp h
    rintro _ ⟨⟩
    exact loaded_optionalTypeAt hcontext

private theorem loaded_actionAt {key : String} {o : ActionObject} {e : String × Declaration Action}
    (h : actionAt path key o = .ok e) :
    (e.2.body.WellFormed TypeRef.IsDocumented ∧
      ∀ t ∈ actionTypeExprs e.2.body, Writable .inner t) ∧ e.2.location = none := by
  obtain ⟨memberOf, -, h⟩ := Except.bind_eq_ok_iff.mp h
  obtain ⟨appliesTo, happlies, h⟩ := Except.bind_eq_ok_iff.mp h
  obtain ⟨notes, -, ⟨⟩⟩ := Except.bind_eq_ok_iff.mp h
  have hcontext := loaded_appliesToAt happlies
  refine ⟨⟨fun a ha t ht ↦ (hcontext a ha t ht).wellFormed, fun t ht ↦ ?_⟩, rfl⟩
  rw [actionTypeExprs, Option.mem_toList] at ht
  obtain ⟨a, ha, ht⟩ := Option.bind_eq_some_iff.mp ht
  exact (hcontext a ha t ht).writable

private theorem loaded_commonTypeAt {key : String} {o : TypeObject}
    {e : Identifier × Declaration (TypeExpr TypeRef)} (h : commonTypeAt path key o = .ok e) :
    Loaded TypeExpr.maxDepth .commonType e.2.body ∧ e.2.location = none := by
  obtain ⟨id, -, h⟩ := Except.bind_eq_ok_iff.mp h
  obtain ⟨notes, -, h⟩ := Except.bind_eq_ok_iff.mp h
  obtain ⟨type, htype, ⟨⟩⟩ := Except.bind_eq_ok_iff.mp h
  exact ⟨loads_typeUpTo _ _ _ _ _ htype, rfl⟩

/-! ### Schemas -/

private theorem forall_mem_ofList {κ α β : Type} [Ord κ] [Std.TransOrd κ]
    {read : Pointer → String → α → Except Error (κ × β)} {members : Members α}
    {bs : List (κ × β)} {P : κ × β → Prop} (h : membersAt path members read = .ok bs)
    (hread : ∀ path key value b, read path key value = .ok b → P b) :
    ∀ e ∈ (Table.ofList bs).entries, P e := by
  intro e he
  obtain ⟨path, key, value, hvalue⟩ := exists_of_membersAt h (Table.mem_of_mem_ofList he)
  exact hread _ _ _ _ hvalue

private theorem placeless_of_none {α : Type} {d : Declaration α} (h : d.location = none) :
    d.placeless = d := by
  rw [Declaration.placeless, ← h]

private theorem loaded_namespaceAt {o : NamespaceObject} {ns : Namespace}
    (h : namespaceAt path o = .ok ns) :
    ns.WellFormed TypeRef.IsDocumented ∧ (∀ p ∈ ns.types, Writable p.1 p.2) ∧
      ns.placeless = ns := by
  obtain ⟨notes, -, h⟩ := Except.bind_eq_ok_iff.mp h
  obtain ⟨cs, hcs, h⟩ := Except.bind_eq_ok_iff.mp h
  obtain ⟨es, hes, h⟩ := Except.bind_eq_ok_iff.mp h
  obtain ⟨as, has, ⟨⟩⟩ := Except.bind_eq_ok_iff.mp h
  have hcommon := forall_mem_ofList hcs fun _ _ _ _ ↦ loaded_commonTypeAt
  have hentity := forall_mem_ofList hes fun _ _ _ _ ↦ loaded_entityTypeAt
  have haction := forall_mem_ofList has fun _ _ _ _ ↦ loaded_actionAt
  refine ⟨⟨?_, ?_, ?_⟩, ?_, ?_⟩
  · exact fun key d hd ↦ (hcommon _ hd).1.wellFormed
  · exact fun key d hd ↦ (hentity _ hd).1.1
  · exact fun key d hd ↦ (haction _ hd).1.1
  · simp only [Namespace.types, List.forall_mem_append, List.forall_mem_map,
      List.forall_mem_flatMap]
    exact ⟨⟨fun e he ↦ (hcommon e he).1.writable, fun e he ↦ (hentity e he).1.2⟩,
      fun e he ↦ (haction e he).1.2⟩
  · rw [Namespace.placeless,
      Table.map_eq_self fun key d hd ↦ placeless_of_none (hcommon (key, d) hd).2,
      Table.map_eq_self fun key d hd ↦ placeless_of_none (hentity (key, d) hd).2,
      Table.map_eq_self fun key d hd ↦ placeless_of_none (haction (key, d) hd).2]

/-- The types of a schema that is read can be written, its references are read as themselves, and it
has no places. -/
theorem loaded_toSchema {d : Document} {s : Schema} (h : toSchema d = .ok s) :
    s.WellFormed TypeRef.IsDocumented ∧ (∀ p ∈ s.types, Writable p.1 p.2) ∧ s.placeless = s := by
  obtain ⟨entries, hentries, ⟨⟩⟩ := Except.bind_eq_ok_iff.mp h
  have hns := forall_mem_ofList (P := fun e ↦ e.2.WellFormed TypeRef.IsDocumented ∧
      (∀ p ∈ e.2.types, Writable p.1 p.2) ∧ e.2.placeless = e.2) hentries
    fun path key o b hb ↦ by
      obtain ⟨name, -, hb⟩ := Except.bind_eq_ok_iff.mp hb
      obtain ⟨ns, hns, ⟨⟩⟩ := Except.bind_eq_ok_iff.mp hb
      exact loaded_namespaceAt hns
  refine ⟨fun name ns hmem ↦ (hns _ hmem).1, ?_, ?_⟩
  · rw [Schema.types, List.forall_mem_flatMap]
    exact fun e he ↦ (hns e he).2.1
  · rw [Schema.placeless, Table.map_eq_self fun name ns hmem ↦ (hns (name, ns) hmem).2.2]

/-! ### Bytes -/

/-- What is read from bytes is read from a document. -/
theorem exists_toSchema_of_readBytes {bytes : List UInt8} {s : Schema}
    (h : readBytes bytes = .ok s) : ∃ d, toSchema d = .ok s := by
  unfold readBytes read readValue at h
  split at h
  · split at h
    · split at h
      · next d _ => exact ⟨d, h⟩
      · cases h
    · cases h
  · cases h

/-- The bytes of a text are read as the text. -/
theorem readBytes_toUTF8 (text : String) :
    readBytes text.toUTF8.data.toList = read text.toList := by
  rw [readBytes, Unicode.Utf8.decode?_toUTF8]

/-- A schema that is read from a document is written, and what is written is read as the same
schema, with each of its references. So it is written in the same way again. -/
theorem readBytes_written {bytes : List UInt8} {s : Schema} (h : readBytes bytes = .ok s) :
    ∃ text, write s = .ok text ∧ readBytes text.toUTF8.data.toList = .ok s ∧
      (readBytes text.toUTF8.data.toList >>= write) = .ok text := by
  obtain ⟨d, hd⟩ := exists_toSchema_of_readBytes h
  obtain ⟨hwf, hwritable, hplaceless⟩ := loaded_toSchema hd
  obtain ⟨text, hwrite, hread⟩ := exists_written hwritable (hwf.imp fun _ hr ↦ hr.1)
  have hself : s.mapRefs TypeRef.documented = s :=
    Schema.mapRefs_of_wellFormed (hwf.imp fun _ hr ↦ hr.2)
  rw [hself, hplaceless, ← readBytes_toUTF8] at hread
  refine ⟨text, hwrite, hread, ?_⟩
  rw [hread]
  exact hwrite

/-- An entity type that is spelled as an array, with a field left empty and a truth value under its
short name, is written in one way only. -/
theorem readBytes_written_spelled :
    let account : Identifier := ⟨"Account", by decide⟩
    let shape : Fields TypeRef := .cons "ok" (.leaf (.primitive .bool)) true ∅ .nil
    let s : Schema := ⟨.ofList [(none, { Namespace.empty with
      entityTypes := .ofList [(account, ⟨.standard [] (some ⟨shape, ∅⟩) none, ∅, none⟩)] })]⟩
    let spelled := "\x7b\"\": \x7b\"entityTypes\": \x7b\"Account\": [[], " ++
      "\x7b\"type\": \"Record\", \"attributes\": \x7b\"ok\": " ++
      "\x7b\"required\": true, \"type\": \"Bool\"\x7d\x7d\x7d, " ++
      "null, null]\x7d, \"actions\": \x7b\x7d\x7d\x7d"
    let text := "\x7b\n  \"\": \x7b\n    \"actions\": \x7b\x7d,\n    \"entityTypes\": \x7b\n" ++
      "      \"Account\": \x7b\n        \"shape\": \x7b\n          \"attributes\": \x7b\n" ++
      "            \"ok\": \x7b\n              \"type\": \"Boolean\"\n            \x7d\n" ++
      "          \x7d,\n          \"type\": \"Record\"\n        \x7d\n      \x7d\n    \x7d\n" ++
      "  \x7d\n\x7d"
    readBytes spelled.toUTF8.data.toList = .ok s ∧ write s = .ok text ∧
      readBytes text.toUTF8.data.toList = .ok s := by
  intro account shape s spelled text
  have hspelled : readBytes spelled.toUTF8.data.toList = .ok s := by
    rw [readBytes_toUTF8]
    decide +kernel
  have hwrite : write s = .ok text := by decide +kernel
  obtain ⟨text', hwrite', hread, -⟩ := readBytes_written hspelled
  obtain rfl : text = text' := Except.ok.inj (hwrite.symm.trans hwrite')
  exact ⟨hspelled, hwrite, hread⟩

end Document

end PolicySchema
