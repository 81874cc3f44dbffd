import PolicySchema.Proofs.Conversion.Readable
import PolicySchema.Proofs.Conversion.Shadowed
import PolicySchema.Proofs.Resolve.Restated

/-!
# Resolving what was written

The text that is written for a schema declares what the schema does, with the kinds of references
left open. Where no reference is shadowed, it is read, and it is resolved to the same entity types
and actions (`resolve_converted`). A shadowed reference may be resolved to something else
(`resolve_converted_shadowed`).
-/

namespace PolicySchema

open Resolve

/-! ### What a text declares -/

section

variable {f : TypeRef → TypeRef} {s s' : Schema}

private theorem flatMap_filter_of_nil {α β : Type} {p : α → Bool} {g : α → List β}
    (h : ∀ a, p a = false → g a = []) (l : List α) : (l.filter p).flatMap g = l.flatMap g := by
  induction l with
  | nil => rfl
  | cons a rest ih =>
    cases hp : p a with
    | true => rw [List.filter_cons_of_pos hp, List.flatMap_cons, List.flatMap_cons, ih]
    | false =>
      rw [List.filter_cons_of_neg (by simp [hp]), List.flatMap_cons, h a hp, ih, List.nil_append]

private theorem declared_placeless (s : Schema) :
    declared [s.placeless] = (declared [s]).map Declared.placeless := by
  simp [declared, declaredIn, Schema.placeless, Namespace.placeless, Table.map, Table.mapEntries,
    List.flatMap_map, List.map_flatMap, Function.comp_def, Declared.placeless]

private theorem declared_mapRefs (f : TypeRef → TypeRef) (s : Schema) :
    declared [s.mapRefs f] = (declared [s]).map (Declared.mapRefs f) := by
  simp [declared, declaredIn, Schema.mapRefs, Namespace.mapRefs, Table.map, Table.mapEntries,
    List.flatMap_map, List.map_flatMap, Function.comp_def, Declared.mapRefs]

private theorem declaredIn_eq_nil {ns : Option Name} {d : Namespace}
    (h : d.hasDeclarations = false) : declaredIn ns d = [] := by
  simp_all [Namespace.hasDeclarations, Table.isEmpty, declaredIn]

private theorem declared_normal (s : Schema) :
    declared [s.normal] = (declared [s]).map (Declared.mapRefs TypeRef.normal) := by
  rw [← declared_mapRefs]
  simp only [declared, List.flatMap_singleton]
  refine flatMap_filter_of_nil (fun e he ↦ declaredIn_eq_nil ?_) _
  simp_all

private theorem isRestated_of_agrees (h : s'.agrees s.normal = true) :
    IsRestated TypeRef.normal (declared [s]) (declared [s']) := by
  rw [IsRestated, ← declared_placeless, of_decide_eq_true h, declared_placeless, declared_normal,
    List.map_map]
  rfl

private theorem exists_declared_of_mem_types {p : Place × TypeExpr TypeRef}
    (hp : p ∈ s.types) : ∃ d ∈ declared [s], p.2 ∈ d.types := by
  have hdeclared {ns : Option Name} {d : Namespace} (hns : (ns, d) ∈ s.namespaces.entries)
      {x : Declared} (hx : x ∈ declaredIn ns d) : x ∈ declared [s] := by
    rw [declared, List.flatMap_singleton]
    exact List.mem_flatMap.mpr ⟨_, hns, hx⟩
  obtain ⟨⟨ns, d⟩, hns, hp⟩ := List.mem_flatMap.mp hp
  simp only [Namespace.types, List.mem_append, List.mem_map, List.mem_flatMap] at hp
  obtain (⟨⟨id, t⟩, ht, rfl⟩ | ⟨⟨id, e⟩, he, t, ht, rfl⟩) | ⟨⟨id, a⟩, ha, t, ht, rfl⟩ := hp
  · refine ⟨.commonType (Name.under ns id) ⟨t, ns⟩, hdeclared hns ?_, List.mem_cons_self⟩
    exact List.mem_append_left _ (List.mem_append_left _ (List.mem_map.mpr ⟨_, ht, rfl⟩))
  · refine ⟨.entityType (Name.under ns id) ⟨e, ns⟩, hdeclared hns ?_, ht⟩
    exact List.mem_append_left _ (List.mem_append_right _ (List.mem_map.mpr ⟨_, he, rfl⟩))
  · refine ⟨.action ⟨actionEntityType ns, id⟩ ⟨a, ns⟩, hdeclared hns ?_, ht⟩
    exact List.mem_append_right _ (List.mem_map.mpr ⟨_, ha, rfl⟩)

end

-- The name of a reference that denotes something known and is not shadowed can be read where it is
-- written.
private theorem isWritable_of_denotesKnown {index : Index} {ds : List Declared} {ns : Option Name}
    {r : TypeRef} {n : Name} (hfound : DenotesKnown index .all ds ns r)
    (hshadow : ¬IsShadowed ds ns r) (hn : r.name? = some n) : n.IsWritable := by
  intro id hid
  cases r with
  | primitive p => cases hn
  | extension id => cases hn
  | entity m =>
    cases hn
    exact absurd (.entityBuiltin hid) hshadow
  | common m =>
    cases hn
    exact absurd (.commonBuiltin hid) hshadow
  | entityOrCommon m =>
    cases hn
    obtain ⟨x, hx, hstands⟩ := hfound
    have hqualified : n.isBare ≠ true := by
      intro hb
      rw [Name.builtin?_of_isBare hb] at hid
      cases hid
    cases hx with
    | builtinPrimitive hid' hp =>
      obtain rfl := Option.some.inj (hid.symm.trans hid')
      exact .inl (by rw [hp]; rfl)
    | builtinExtension hid' hp =>
      obtain rfl := Option.some.inj (hid.symm.trans hid')
      exact .inr (hstands _ rfl)
    | _ => simp_all

namespace Document

/-- A text that is written for a schema from a document is read, and it is resolved to the same
entity types and actions, if no reference in the schema is shadowed. -/
theorem resolve_converted (file : String) {bytes : List UInt8} {s : Schema} {checks : StackChecks}
    {r : ResolvedSchema} {text : String} (h : readBytes bytes = .ok s)
    (hresolve : s.resolveUnder checks .all = .ok r) (hwrite : Text.write s = .ok text)
    (hshadow : ∀ d ∈ declared [s], ∀ ref ∈ d.references, ¬IsShadowed (declared [s]) d.ns ref) :
    ∃ s' r', Text.read ⟨file, text⟩ = .ok s' ∧ s'.resolveUnder checks .all = .ok r' ∧
      r'.entityTypes = r.entityTypes ∧ r'.actions = r.actions := by
  obtain ⟨d, hd⟩ := exists_toSchema_of_readBytes h
  obtain ⟨hwf, -, -⟩ := loaded_toSchema hd
  have hwritable : s.WellFormed TypeRef.IsWritable := by
    refine hwf.of_leaves fun p hp ref href hdocumented ↦ ?_
    obtain ⟨d, hd, ht⟩ := exists_declared_of_mem_types hp
    have href' : ref ∈ d.references := List.mem_flatMap.mpr ⟨p.2, ht, href⟩
    have hfound := denotesKnown_of_resolveAll hresolve hd href'
    exact TypeRef.isWritable_of_name? hdocumented.1 fun n hn ↦
      isWritable_of_denotesKnown hfound (hshadow d hd ref href') hn
  obtain ⟨hvet, rfl⟩ := Text.vetSchema_of_write hwrite
  obtain ⟨s', hread, hagrees⟩ := Text.exists_read_render file hwritable hvet
  have hindex := (completed_of_resolveAll hresolve).reflects
  obtain ⟨r', hresolve', hsame⟩ := resolveAll_restated (isRestated_of_agrees hagrees)
    (fun d hd ref href x hx ↦ (not_isShadowed_iff hindex hx).mp (hshadow d hd ref href)) hresolve
  exact ⟨s', r', hread, hresolve', hsame⟩

-- A document of entity types for users and for documents, the tags of which are users, and of a
-- common type of the given name.
private def usersWith (common : String) : String :=
  "\x7b\"\": \x7b\"commonTypes\": \x7b\"" ++ common ++ "\": \x7b\"type\": \"Long\"\x7d\x7d, " ++
    "\"entityTypes\": \x7b\"User\": \x7b\x7d, \"Doc\": \x7b\"tags\": " ++
    "\x7b\"type\": \"Entity\", \"name\": \"User\"\x7d\x7d\x7d, \"actions\": \x7b\x7d\x7d\x7d"

private def users (common user doc : Identifier) : Schema :=
  ⟨.ofList [(none, { Namespace.empty with
    commonTypes := .ofList [(common, ⟨.leaf (.primitive .long), ∅, none⟩)]
    entityTypes := .ofList [(user, ⟨.standard [] none none, ∅, none⟩),
      (doc, ⟨.standard [] none (some (.leaf (.entity (.bare user)))), ∅, none⟩)] })]⟩

/-- Tags that must be of an entity type stay so if no common type has the name of it. -/
theorem resolve_converted_users :
    let age : Identifier := ⟨"Age", by decide⟩
    let user : Identifier := ⟨"User", by decide⟩
    let doc : Identifier := ⟨"Doc", by decide⟩
    let s := users age user doc
    let text := "type Age = Long;\n\nentity Doc tags User;\n\nentity User;\n"
    ∃ r, readBytes (usersWith "Age").toUTF8.data.toList = .ok s ∧
      s.resolve .all = .ok r ∧ Text.write s = .ok text ∧
      (r.entityTypes.find? (.bare doc)).map (fun e ↦ e.tags) =
        some (some (.leaf (.entity (.bare user)))) ∧
      ∃ s' r', Text.read ⟨"users.cedarschema", text⟩ = .ok s' ∧ s'.resolve .all = .ok r' ∧
        r'.entityTypes = r.entityTypes ∧ r'.actions = r.actions := by
  intro age user doc s text
  have hread : readBytes (usersWith "Age").toUTF8.data.toList = .ok s := by
    rw [readBytes_toUTF8]
    decide +kernel
  have hwrite : Text.write s = .ok text := by decide +kernel
  have hcollect : (Index.collect [s]).2 = [] := by decide +kernel
  have hindex := Index.reflects_collect hcollect
  have htargets : ∀ d ∈ declared [s], ∀ ref ∈ d.references,
      (((Index.collect [s]).1.target d.ns ref).referent?).isSome = true ∧
        ((Index.collect [s]).1.target d.ns ref.normal).referent? =
          ((Index.collect [s]).1.target d.ns ref).referent? := by decide +kernel
  have hshadow : ∀ d ∈ declared [s], ∀ ref ∈ d.references,
      ¬IsShadowed (declared [s]) d.ns ref := by
    intro d hd ref href
    obtain ⟨hsome, heq⟩ := htargets d hd ref href
    obtain ⟨x, hx⟩ := Option.isSome_iff_exists.mp hsome
    exact (not_isShadowed_iff hindex (hindex.denotes_iff.mpr hx)).mpr
      (hindex.denotes_iff.mpr (heq.trans hx))
  have htags : (s.resolve .all).toOption.map (fun r ↦
      (r.entityTypes.find? (.bare doc)).map fun e ↦ e.tags) =
        some (some (some (.leaf (.entity (.bare user))))) := by decide +kernel
  obtain ⟨r, hr, htags⟩ := Option.map_eq_some_iff.mp htags
  rw [Except.toOption_eq_some_iff] at hr
  exact ⟨r, hread, hr, hwrite, htags, resolve_converted _ hread hr hwrite hshadow⟩

/-- Tags that must be of an entity type are read as a common type of the name of it. -/
theorem resolve_converted_shadowed :
    let user : Identifier := ⟨"User", by decide⟩
    let doc : Identifier := ⟨"Doc", by decide⟩
    let s := users user user doc
    let text := "type User = Long;\n\nentity Doc tags User;\n\nentity User;\n"
    ∃ r s' r', readBytes (usersWith "User").toUTF8.data.toList = .ok s ∧
      s.resolve .all = .ok r ∧ Text.write s = .ok text ∧
      Text.read ⟨"users.cedarschema", text⟩ = .ok s' ∧ s'.resolve .all = .ok r' ∧
      (r.entityTypes.find? (.bare doc)).map (fun e ↦ e.tags) =
        some (some (.leaf (.entity (.bare user)))) ∧
      (r'.entityTypes.find? (.bare doc)).map (fun e ↦ e.tags) =
        some (some (.leaf (.primitive .long))) ∧
      r'.entityTypes ≠ r.entityTypes := by
  intro user doc s text
  have hread : readBytes (usersWith "User").toUTF8.data.toList = .ok s := by
    rw [readBytes_toUTF8]
    decide +kernel
  have hwrite : Text.write s = .ok text := by decide +kernel
  have htags : (s.resolve .all).toOption.map (fun r ↦
      (r.entityTypes.find? (.bare doc)).map fun e ↦ e.tags) =
        some (some (some (.leaf (.entity (.bare user))))) := by decide +kernel
  have hcopied : ((Text.read ⟨"users.cedarschema", text⟩).toOption.bind fun s' ↦
      (s'.resolve .all).toOption.map fun r' ↦
        (r'.entityTypes.find? (.bare doc)).map fun e ↦ e.tags) =
        some (some (some (.leaf (.primitive .long)))) := by decide +kernel
  obtain ⟨r, hr, htags⟩ := Option.map_eq_some_iff.mp htags
  obtain ⟨s', hs', hcopied⟩ := Option.bind_eq_some_iff.mp hcopied
  obtain ⟨r', hr', hcopied⟩ := Option.map_eq_some_iff.mp hcopied
  rw [Except.toOption_eq_some_iff] at hr hs' hr'
  refine ⟨r, s', r', hread, hr, hwrite, hs', hr', htags, hcopied, fun hsame ↦ ?_⟩
  rw [hsame, htags] at hcopied
  simp at hcopied

end Document

end PolicySchema
