import PolicySchema.Proofs.Document.Loaded
import PolicySchema.Proofs.Document.Overdeep
import PolicySchema.Proofs.Text.RoundTrip

/-!
# What is read from a text can be written

Whatever its layout, a text gives types that either form can hold, in which each reference has a
form of its own, and an anonymous namespace only if something is declared in it. So a schema that
was read is its own normal form. It is written in both forms, and what is written is read as the
same schema (`read_rewritten`).
-/

namespace PolicySchema

open Text

/-- The reference is read as itself from either form. -/
structure TypeRef.IsSettled (r : TypeRef) : Prop where
  writable : r.IsWritable
  normal : r.normal = r
  documented : r.IsDocumented

/-- What is known of a type that is read from a text. -/
structure TypeExpr.IsSettled (t : TypeExpr TypeRef) : Prop where
  depth : t.depth ≤ maxDepth
  plain : t.IsPlain
  wellFormed : t.WellFormed TypeRef.IsSettled

namespace Text

open Syntax Writing

/-! ### Types -/

private theorem isSettled_of_means {n : Name} {r : TypeRef} (h : Means n r) : r.IsSettled := by
  cases h with
  | primitive _ _ => exact ⟨trivial, rfl, trivial, rfl⟩
  | builtinPrimitive _ _ => exact ⟨trivial, rfl, trivial, rfl⟩
  | extension _ hknown => exact ⟨hknown, rfl, hknown, rfl⟩
  | other hprimitive hbuiltin =>
    refine ⟨fun id hid ↦ ?_, ?_, trivial, rfl⟩
    · rw [hbuiltin] at hid
      cases hid
    · change n.asRef = _
      have hstring := hprimitive .string
      have hlong := hprimitive .long
      have hbool := hprimitive .bool
      unfold Name.asRef
      rw [hbuiltin]
      simp only [Primitive.text] at hstring hlong hbool
      grind

private theorem exists_of_trailing {α : Type} {P : α → List Symbol → Prop} {as : List α}
    {u : List Symbol} (h : Trailing P as u) : ∀ a ∈ as, ∃ v, P a v := by
  induction h with
  | none => exact nofun
  | last ha =>
    intro a hmem
    obtain rfl := List.mem_singleton.mp hmem
    exact ⟨_, ha⟩
  | more ha _ ih => exact List.forall_mem_cons.mpr ⟨⟨_, ha⟩, ih⟩

private theorem isType_of_isAttribute {e : String × Attribute TypeRef} {u : List Symbol}
    (h : IsAttribute e u) : ∃ v, IsType e.2.type v := by
  cases h with
  | required _ _ htype => exact ⟨_, htype⟩
  | optional _ _ htype => exact ⟨_, htype⟩

private theorem isType_of_isRecord {fields : Fields TypeRef} {u : List Symbol}
    (h : IsRecord fields u) :
    Ascending fields.toList ∧ ∀ e ∈ fields.toList, ∃ v, IsType e.2.type v := by
  cases h with
  | @braces attributes _ htrailing _ =>
    rw [Fields.ofTable, Fields.toList_ofList]
    refine ⟨(Table.ofList attributes).ascending, fun e he ↦ ?_⟩
    obtain ⟨v, hv⟩ := exists_of_trailing htrailing e (Table.mem_of_mem_ofList he)
    exact isType_of_isAttribute hv

-- The induction is on the type and not on its derivation, in which attributes are listed.
mutual

private theorem wellFormed_of_isType : ∀ {t : TypeExpr TypeRef} {u : List Symbol}, IsType t u →
    t.WellFormed TypeRef.IsSettled ∧ t.IsPlain
  | .leaf r, u, h => by
    cases h with
    | named _ hmeans => exact ⟨isSettled_of_means hmeans, trivial⟩
  | .set element, u, h => by
    cases h with
    | set helement =>
      obtain ⟨hwf, hplain⟩ := wellFormed_of_isType helement
      exact ⟨hwf, hplain⟩
  | .record fields notes, u, h => by
    cases h with
    | record hrecord =>
      obtain ⟨hsorted, htypes⟩ := isType_of_isRecord hrecord
      obtain ⟨hwf, hplain⟩ := wellFormed_of_isTypes htypes
      exact ⟨⟨hsorted, hwf⟩, rfl, hplain⟩

private theorem wellFormed_of_isTypes : ∀ {fields : Fields TypeRef},
    (∀ e ∈ fields.toList, ∃ u, IsType e.2.type u) →
      fields.WellFormed TypeRef.IsSettled ∧ fields.IsPlain
  | .nil, _ => ⟨trivial, trivial⟩
  | .cons key type required notes rest, h => by
    rw [Fields.toList, List.forall_mem_cons] at h
    obtain ⟨⟨u, htype⟩, hrest⟩ := h
    obtain ⟨hwf, hplain⟩ := wellFormed_of_isType htype
    obtain ⟨hwf', hplain'⟩ := wellFormed_of_isTypes hrest
    exact ⟨⟨hwf, hwf'⟩, hplain, hplain'⟩

end

/-! ### Declarations -/

private def IsSettled : Statement → Prop
  | .block .. => True
  | .commonType _ _ t _ => t.IsSettled
  | .entityType _ _ e _ => e.WellFormed TypeRef.IsSettled ∧ ∀ t ∈ entityTypeExprs e, t.IsSettled
  | .action _ _ a _ => a.WellFormed TypeRef.IsSettled ∧ ∀ t ∈ actionTypeExprs a, t.IsSettled

private theorem isSettled_of_isType {t : TypeExpr TypeRef} {u : List Symbol} (h : IsType t u)
    (hdepth : t.depth ≤ TypeExpr.maxDepth) : t.IsSettled := by
  obtain ⟨hwf, hplain⟩ := wellFormed_of_isType h
  exact ⟨hdepth, hplain, hwf⟩

private theorem isSettled_of_isShape {shape : Option (RecordType TypeRef)} {u : List Symbol}
    (h : IsShape shape u) : ∀ r ∈ shape, r.toType.IsSettled := by
  cases h with
  | none => exact nofun
  | bare hrecord hdepth =>
    rintro _ ⟨⟩
    exact isSettled_of_isType (.record hrecord) hdepth
  | equals hrecord hdepth =>
    rintro _ ⟨⟩
    exact isSettled_of_isType (.record hrecord) hdepth

private theorem isSettled_of_isTags {tags : Option (TypeExpr TypeRef)} {u : List Symbol}
    (h : IsTags tags u) : ∀ t ∈ tags, t.IsSettled := by
  cases h with
  | none => exact nofun
  | some htype hdepth =>
    rintro _ ⟨⟩
    exact isSettled_of_isType htype hdepth

private theorem isSettled_of_isAppliesTo {block : Option AppliesTo} {u : List Symbol}
    (h : IsAppliesTo block u) : ∀ a ∈ block, ∀ t ∈ a.context, t.IsSettled := by
  cases h with
  | none => exact nofun
  | block hentries _ =>
    rintro _ ⟨⟩ t ht
    obtain ⟨entry, hentry, hcontext⟩ := List.exists_of_findSome?_eq_some ht
    obtain ⟨v, hv⟩ := exists_of_trailing hentries entry hentry
    cases hv with
    | context htype hdepth =>
      cases hcontext
      exact isSettled_of_isType htype hdepth
    | _ => cases hcontext

private theorem isSettled_of_isBody {ns : Option Name} {notes : Annotations} {ss : List Statement}
    {u : List Symbol} (h : IsBody ns notes ss u) : ∀ t ∈ ss, IsSettled t := by
  cases h with
  | entity _ _ hshape htags =>
    have hshape := isSettled_of_isShape hshape
    have htags := isSettled_of_isTags htags
    refine List.forall_mem_map.mpr fun key _ ↦ ⟨?_, ?_⟩
    · exact ⟨fun r hr ↦ (hshape r hr).wellFormed, fun t ht ↦ (htags t ht).wellFormed⟩
    · simp only [entityTypeExprs, List.forall_mem_append, Option.mem_toList]
      refine ⟨fun t ht ↦ ?_, htags⟩
      obtain ⟨r, hr, rfl⟩ := Option.map_eq_some_iff.mp ht
      exact hshape r hr
  | enum _ hnodup =>
    exact List.forall_mem_singleton.mpr ⟨hnodup, by simp [entityTypeExprs]⟩
  | action _ _ happlies =>
    have hcontext := isSettled_of_isAppliesTo happlies
    refine List.forall_mem_map.mpr fun key _ ↦ ⟨fun a ha t ht ↦ ?_, fun t ht ↦ ?_⟩
    · exact (hcontext a ha t ht).wellFormed
    · rw [actionTypeExprs, Option.mem_toList] at ht
      obtain ⟨a, ha, ht⟩ := Option.bind_eq_some_iff.mp ht
      exact hcontext a ha t ht
  | commonType htype hdepth =>
    exact List.forall_mem_singleton.mpr (isSettled_of_isType htype hdepth)

mutual

private theorem isSettled_of_isDeclaration {ns : Option Name} {ss : List Statement}
    {u : List Symbol} : IsDeclaration ns ss u → ∀ t ∈ ss, IsSettled t
  | .block _ _ hinside =>
    List.forall_mem_cons.mpr ⟨trivial, isSettled_of_isDeclarations hinside⟩
  | .body _ hbody => isSettled_of_isBody hbody

private theorem isSettled_of_isDeclarations {ns : Option Name} {ss : List Statement}
    {u : List Symbol} : IsDeclarations ns ss u → ∀ t ∈ ss, IsSettled t
  | .none => nofun
  | .more hfirst hrest => List.forall_mem_append.mpr
      ⟨isSettled_of_isDeclaration hfirst, isSettled_of_isDeclarations hrest⟩

end

/-! ### Schemas -/

section

variable {s : Schema} {ss : List Statement}

private theorem find?_of_mem {κ α : Type} [Ord κ] [Std.LawfulEqOrd κ] {t : Table κ α} {k : κ}
    {v : α} (h : (k, v) ∈ t.entries) : t.find? k = some v := Table.find?_eq_some_iff.mpr h

variable (hs : s.Holds ss) (hsettled : ∀ t ∈ ss, IsSettled t)
include hs hsettled

private theorem wellFormed_of_holds : s.WellFormed TypeRef.IsSettled := by
  intro name ns hns
  have hmembers := fun m hm ↦ hsettled _ (hs.statement_mem (find?_of_mem hns) m hm)
  simp only [Namespace.members, List.forall_mem_append, List.forall_mem_map] at hmembers
  obtain ⟨⟨hcommon, hentity⟩, haction⟩ := hmembers
  exact ⟨fun key d hd ↦ (hcommon (key, d) hd).wellFormed, fun key d hd ↦ (hentity (key, d) hd).1,
    fun key d hd ↦ (haction (key, d) hd).1⟩

private theorem isSettled_of_mem_types : ∀ p ∈ s.types, p.2.IsSettled := by
  refine Schema.forall_mem_types.mpr fun e he m hm ↦ ?_
  have hstated := hsettled _ (hs.statement_mem (find?_of_mem he) m hm)
  cases m with
  | commonType id d => exact List.forall_mem_singleton.mpr hstated
  | entityType id d => exact hstated.2
  | action id d => exact hstated.2

end

private theorem isEmpty_of_find? {κ α : Type} [Ord κ] {t : Table κ α} {k : κ} {v : α}
    (h : t.find? k = some v) : t.isEmpty = false := by
  rw [← Bool.not_eq_true, Table.isEmpty_iff]
  rintro rfl
  cases h

section

variable {s : Schema} {ss : List Statement} {ns : Namespace} (hs : s.Holds ss)
include hs

private theorem hasDeclarations_of_holds (hns : s.namespace? none = some ns) :
    ns.hasDeclarations = true := by
  obtain ⟨t, ht, habout⟩ := (hs.namespaces none).mp (by rw [hns]; rfl)
  rw [Namespace.hasDeclarations]
  cases t with
  | block n notes => cases habout
  | commonType name key body notes =>
    obtain rfl : name = none := habout
    obtain ⟨place, hfind⟩ := (hs.commonTypes none key body notes).mpr ht
    rw [Schema.commonType?, hns, Option.bind_some] at hfind
    simp [isEmpty_of_find? hfind]
  | entityType name key body notes =>
    obtain rfl : name = none := habout
    obtain ⟨place, hfind⟩ := (hs.entityTypes none key body notes).mpr ht
    rw [Schema.entityType?, hns, Option.bind_some] at hfind
    simp [isEmpty_of_find? hfind]
  | action name key body notes =>
    obtain rfl : name = none := habout
    obtain ⟨place, hfind⟩ := (hs.actions none key body notes).mpr ht
    rw [Schema.action?, hns, Option.bind_some] at hfind
    simp [isEmpty_of_find? hfind]

private theorem annotations_of_holds (hns : s.namespace? none = some ns) :
    ns.annotations = ∅ := by
  have h := hs.unannotated none (fun n notes _ ↦ nofun)
  rwa [Schema.annotations, hns] at h

end

/-- References in a schema that is read are read as themselves from either form, its types can be
held by either, and its anonymous namespace declares something and has no annotations. -/
theorem isSettled_of_readUnder {exhausted : StackMap} {source : Source} {s : Schema}
    (h : readUnder exhausted source = .ok s) :
    s.WellFormed TypeRef.IsSettled ∧ (∀ p ∈ s.types, p.2.IsSettled) ∧
      ∀ ns, s.namespace? none = some ns → ns.annotations = ∅ ∧ ns.hasDeclarations = true := by
  obtain ⟨ss, hdecl, hs⟩ := exists_statements_of_readUnder h
  have hsettled := isSettled_of_isDeclarations hdecl
  exact ⟨wellFormed_of_holds hs hsettled, isSettled_of_mem_types hs hsettled,
    fun ns hns ↦ ⟨annotations_of_holds hs hns, hasDeclarations_of_holds hs hns⟩⟩

private theorem normal_eq_self {s : Schema} {ss : List Statement} (hs : s.Holds ss)
    (hsettled : ∀ t ∈ ss, IsSettled t) : s.normal = s := by
  have hself : s.mapRefs TypeRef.normal = s :=
    Schema.mapRefs_of_wellFormed ((wellFormed_of_holds hs hsettled).imp fun _ hr ↦ hr.normal)
  rw [Schema.normal, hself, Table.filter_eq_self fun name ns hns ↦ ?_]
  cases name with
  | none => exact hasDeclarations_of_holds hs (find?_of_mem hns)
  | some n => rfl

/-! ### Writing -/

private theorem vetSchema_of_isSettled {s : Schema} (htypes : ∀ p ∈ s.types, p.2.IsSettled)
    (hanonymous : ∀ ns, s.namespace? none = some ns → ns.annotations = ∅) :
    vetSchema s = .ok () := by
  refine vetSchema_eq_ok_iff.mpr fun e he ↦ ⟨fun hname ↦ ?_, fun m hm t ht ↦ ?_⟩
  · exact hanonymous e.2 (find?_of_mem (hname ▸ he))
  · have hsettled : t.IsSettled := Schema.forall_mem_types.mp htypes e he m hm t ht
    exact ⟨hsettled.plain, hsettled.depth⟩

private theorem vetNamespace_placeless (name : Option Name) (ns : Namespace) :
    vetNamespace name ns.placeless = vetNamespace name ns := by
  have htypes : namespaceTypeExprs name ns.placeless = namespaceTypeExprs name ns := by
    simp [namespaceTypeExprs, Namespace.placeless, Table.map, Table.mapEntries, List.flatMap_map,
      Declaration.placeless, Function.comp_def]
  rw [vetNamespace, htypes]
  rfl

private theorem hasDeclarations_placeless (ns : Namespace) :
    ns.placeless.hasDeclarations = ns.hasDeclarations := by
  simp [Namespace.hasDeclarations, Namespace.placeless, Table.isEmpty, Table.map,
    Table.mapEntries]

private theorem namespaceParts_placeless (name : Option Name) (ns : Namespace) :
    namespaceParts name ns.placeless = namespaceParts name ns := by
  have hdeclarations (indent : Nat) :
      namespaceDeclarations indent ns.placeless = namespaceDeclarations indent ns := by
    simp [namespaceDeclarations, Namespace.placeless, Table.map, Table.mapEntries,
      Declaration.placeless, Function.comp_def]
  cases name with
  | none => rw [namespaceParts, namespaceParts, hdeclarations]
  | some n =>
    rw [namespaceParts, namespaceParts, hdeclarations]
    rfl

private theorem write_placeless (s : Schema) : write s.placeless = write s := by
  have hvet : vetSchema s.placeless = vetSchema s := by
    simp [vetSchema, Schema.placeless, Table.map, Table.mapEntries, vetNamespace_placeless]
  have hrender : render s.placeless = render s := by
    simp [render, schemaParts, Schema.placeless, Table.map, Table.mapEntries, List.filter_map,
      Function.comp_def, namespaceParts_placeless, hasDeclarations_placeless]
  rw [write, write, hvet, hrender]

private theorem write_eq_of_agrees {s t : Schema} (h : s.agrees t = true) : write s = write t := by
  have hplaceless : s.placeless = t.placeless := of_decide_eq_true h
  rw [← write_placeless s, hplaceless, write_placeless]

/-- A schema that is read from a text is written in both forms. What is written is read as the same
schema but for places, with nothing put into a normal form, and the text is written in the same way
again. -/
theorem read_rewritten {exhausted : StackMap} {source : Source} {s : Schema}
    (h : readUnder exhausted source = .ok s) (file : String) :
    (∃ text s', write s = .ok text ∧ read ⟨file, text⟩ = .ok s' ∧ s'.agrees s = true ∧
      write s' = .ok text) ∧
    ∃ text s', Document.write s = .ok text ∧ Document.read text.toList = .ok s' ∧
      s'.agrees s = true := by
  obtain ⟨ss, hdecl, hs⟩ := exists_statements_of_readUnder h
  have hsettled := isSettled_of_isDeclarations hdecl
  have hwf := wellFormed_of_holds hs hsettled
  have htypes := isSettled_of_mem_types hs hsettled
  have hnormal := normal_eq_self hs hsettled
  constructor
  · have hvet := vetSchema_of_isSettled htypes fun ns ↦ annotations_of_holds hs
    have hwrite : write s = .ok (render s) := by rw [write, hvet]; rfl
    obtain ⟨s', hread, hagrees⟩ := exists_read_render file (hwf.imp fun _ hr ↦ hr.writable) hvet
    rw [hnormal] at hagrees
    exact ⟨render s, s', hwrite, hread, hagrees, (write_eq_of_agrees hagrees).trans hwrite⟩
  · have hwritable : ∀ p ∈ s.types, Document.Writable p.1 p.2 := fun p hp ↦
      Document.writable_of_isPlain (htypes p hp).plain (htypes p hp).depth p.1
    obtain ⟨text, hwrite, hread⟩ := Document.exists_written hwritable
      (hwf.imp fun _ hr ↦ hr.documented.1)
    have hself : s.mapRefs TypeRef.documented = s :=
      Schema.mapRefs_of_wellFormed (hwf.imp fun _ hr ↦ hr.documented.2)
    rw [hself] at hread
    exact ⟨text, s.placeless, hwrite, hread, Document.agrees_placeless s⟩

/-- Nested blocks, several names in one declaration, escapes and names of built-in types have one
written form each, which is read as the same schema. -/
theorem read_rewritten_layout :
    let source : Source := ⟨"raw.cedarschema", "namespace A \x7b namespace B \x7b // inside\n" ++
      "  entity User, Group in Group = \x7b \"a\\x62\"?: Set<__cedar::Bool>, \x7d; \x7d \x7d"⟩
    let text := "namespace A \x7b\n\x7d\n\nnamespace A::B \x7b\n" ++
      "  entity Group in [Group] \x7b\n    ab?: Set<Bool>,\n  \x7d;\n\n" ++
      "  entity User in [Group] \x7b\n    ab?: Set<Bool>,\n  \x7d;\n\x7d\n"
    ∃ s s', read source = .ok s ∧ write s = .ok text ∧
      read ⟨"written.cedarschema", text⟩ = .ok s' ∧ s'.agrees s = true ∧ write s' = .ok text := by
  intro source text
  have hwrite : (read source).toOption.map write = some (.ok text) := by decide +kernel
  cases hread : read source with
  | error e =>
    rw [hread] at hwrite
    cases hwrite
  | ok s =>
    rw [hread] at hwrite
    have hwrite : write s = .ok text := Option.some.inj hwrite
    obtain ⟨⟨text', s', hwrite', hrest⟩, -⟩ := read_rewritten hread "written.cedarschema"
    obtain rfl : text = text' := Except.ok.inj (hwrite.symm.trans hwrite')
    exact ⟨s, s', rfl, hwrite, hrest⟩

end Text

end PolicySchema
