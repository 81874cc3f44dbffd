import PolicySchema.Proofs.Overdeep
import PolicySchema.Proofs.Text.Refusal
import PolicySchema.Proofs.Text.RoundTrip

/-!
# Schemas that nest too deep in the text form

The check before writing names the first declaration with a type that nests too deep
(`write_of_breaksAt`). Written all the same, the schema is a text whose reading stops at such a type
(`read_of_breaksAt`): what stands before that declaration follows the grammar, and introduces
nothing twice.
-/

namespace PolicySchema.Text

open Syntax Writing Grammar
open Namespace (Member)

variable {s : Schema} {name : Option Name} {ns : Namespace} {m : Member}

private theorem vetted_of_withinDepth (h : m.WithinDepth) (hplain : ∀ t ∈ m.types, t.IsPlain) :
    ∀ t ∈ m.types, Vetted t :=
  fun t ht ↦ ⟨hplain t ht, h t ht⟩

/-! ### The check before writing -/

private theorem vetNamespace_of_breaksAt (hplain : ∀ k ∈ ns.members, ∀ t ∈ k.types, t.IsPlain)
    (hnotes : name = none → ns.annotations = ∅) (h : ns.BreaksAt m) :
    vetNamespace name ns = .error (.tooDeep (m.label name)) := by
  have hempty : (name.isNone && !ns.annotations.isEmpty) = false := by
    cases name with
    | none => rw [hnotes rfl]; rfl
    | some n => rfl
  obtain ⟨before, after, hmembers, hbefore⟩ := h.members
  obtain ⟨earlier, t, later, htypes, hearlier, ht⟩ := exists_first_of_not_forall h.overdeep
  rw [hmembers] at hplain
  simp only [List.forall_mem_append, List.forall_mem_cons, htypes] at hplain
  rw [vetNamespace, hempty, if_neg Bool.false_ne_true, Namespace.namespaceTypeExprs_eq_flatMap,
    hmembers, List.flatMap_append, List.flatMap_cons, htypes, List.map_append, List.map_cons,
    List.append_assoc, List.cons_append, ← List.append_assoc]
  refine Except.forM_eq_error ?_ (vetType_of_overdeep hplain.2.1.2.1 ht)
  simp only [List.forall_mem_append, List.forall_mem_flatMap, List.forall_mem_map,
    vetType_zero_eq_ok_iff]
  exact ⟨fun k hk ↦ vetted_of_withinDepth (hbefore k hk) (hplain.1 k hk),
    fun u hu ↦ ⟨hplain.2.1.1 u hu, hearlier u hu⟩⟩

/-- The text form can hold a schema that does not nest too deep. -/
theorem vetSchema_of_withinDepth (hplain : s.IsPlain) (h : s.WithinDepth) :
    vetSchema s = .ok () :=
  vetSchema_eq_ok_iff.mpr fun e he ↦
    ⟨hplain.anonymous e he, fun m hm ↦ vetted_of_withinDepth (h e he m hm) (hplain.types e he m hm)⟩

/-- A schema that only nests too deep is not written, and the error names the declaration where it
breaks the limit. -/
theorem write_of_breaksAt (hplain : s.IsPlain) (h : s.BreaksAt name ns m) :
    write s = .error (.tooDeep (m.label name)) := by
  obtain ⟨before, after, hentries, hbefore⟩ := h.namespaces
  obtain ⟨htypes, hanonymous⟩ := hplain
  simp only [hentries, List.forall_mem_append, List.forall_mem_cons] at htypes hanonymous
  have hvet : vetSchema s = .error (.tooDeep (m.label name)) := by
    rw [vetSchema, hentries]
    refine Except.forM_eq_error (fun e he ↦ ?_)
      (vetNamespace_of_breaksAt htypes.2.1 hanonymous.2.1 h.inside)
    exact vetNamespace_eq_ok_iff.mpr ⟨hanonymous.1 e he, fun k hk ↦
      vetted_of_withinDepth (hbefore e he k hk) (htypes.1 e he k hk)⟩
  rw [write, hvet]
  rfl

/-! ### Declarations -/

private def BeginsOverdeep (u : List Symbol) : Prop := ∃ w, IsOverdeep w ∧ w <+: u

private theorem lt_depth_normal {t : TypeExpr TypeRef} (h : ¬ t.depth ≤ TypeExpr.maxDepth) :
    TypeExpr.maxDepth < (t.mapRefs TypeRef.normal).depth := by
  rw [TypeExpr.depth_mapRefs]
  exact Nat.lt_of_not_le h

private theorem beginsOverdeep_entityParts (indent : Nat) (key : Identifier) {e : EntityType}
    (hplain : ∀ t ∈ entityTypeExprs e, t.IsPlain) (hwf : e.WellFormed TypeRef.IsWritable)
    (h : ¬ ∀ t ∈ entityTypeExprs e, t.depth ≤ TypeExpr.maxDepth) :
    BeginsOverdeep (.word "entity" :: .word key.text :: symbolsOf (entityParts indent e) ++
      [.mark .semicolon]) := by
  cases e with
  | enumerated first others => exact absurd nofun h
  | standard memberOf shape tags =>
    have hkey : Separated .comma IsIdentifier [key] [.word key.text] := .last (.word key)
    have hparents := isParents_names memberOf
    rw [forall_mem_entityTypeExprs] at hplain h
    unfold entityParts
    by_cases hshape : ∀ r ∈ shape, r.toType.depth ≤ TypeExpr.maxDepth
    · have htags : ¬ ∀ t ∈ tags, t.depth ≤ TypeExpr.maxDepth := fun ht ↦ h ⟨hshape, ht⟩
      simp only [not_forall] at htags
      obtain ⟨t, rfl, ht⟩ := htags
      have hclause := isShape_clause indent shape
        (fun r hr ↦ ⟨hplain.1 r hr, hshape r hr⟩) hwf.1
      have htype := isType_typeParts indent (hplain.2 t rfl) (hwf.2 t rfl)
      refine ⟨_, .tags hkey hparents hclause htype (lt_depth_normal ht), [.mark .semicolon], ?_⟩
      simp only [symbolsOf_append, List.append_assoc, List.cons_append, List.nil_append]
      rfl
    · simp only [not_forall] at hshape
      obtain ⟨r, rfl, hr⟩ := hshape
      obtain ⟨-, hrecord⟩ := isRecord_shape indent (hplain.1 r rfl) (hwf.1 r rfl)
      have hdepth : TypeExpr.maxDepth ≤ (r.fields.mapRefs TypeRef.normal).depth :=
        Nat.le_of_lt_succ (lt_depth_normal hr)
      refine ⟨_, .shape hkey hparents hrecord hdepth, ?_⟩
      simp only [symbolsOf_append]
      simp only [List.append_assoc, List.cons_append, List.nil_append, List.cons_prefix_cons,
        List.prefix_append_right_inj, true_and]
      exact List.prefix_append ..

private theorem beginsOverdeep_actionParts (indent : Nat) (id : String) {a : Action}
    (hplain : ∀ t ∈ actionTypeExprs a, t.IsPlain) (hwf : a.WellFormed TypeRef.IsWritable)
    (h : ¬ ∀ t ∈ actionTypeExprs a, t.depth ≤ TypeExpr.maxDepth) :
    BeginsOverdeep (.word "action" :: symbolsOf [key id] ++ symbolsOf (actionParts indent a) ++
      [.mark .semicolon]) := by
  rw [forall_mem_actionTypeExprs] at hplain h
  simp only [not_forall] at h
  obtain ⟨⟨principals, resources, context⟩, hblock, t, rfl, ht⟩ := h
  have hkey : Separated .comma IsKey [id] (symbolsOf [key id]) := .last (isKey_key id)
  have htype := isType_typeParts (indent + indentStep) (hplain _ hblock t rfl) (hwf _ hblock t rfl)
  have hentries :=
    (punctuated_namesEntryParts (indent + indentStep) .principals principals).append
      (punctuated_namesEntryParts (indent + indentStep) .resources resources)
  have hdiff : ((((if principals.isEmpty then [] else [Entry.principals principals]) ++
      (if resources.isEmpty then [] else [Entry.resources resources])) ++
      [Entry.context (t.mapRefs TypeRef.normal)]).map Entry.key).Nodup := by
    cases principals <;> cases resources <;> simp [Entry.key]
  refine ⟨_, .context hkey (isParents_actionRefs a.memberOf) hentries hdiff htype
    (lt_depth_normal ht), ?_⟩
  obtain ⟨memberOf, appliesTo⟩ := a
  obtain rfl : appliesTo = some ⟨principals, resources, some t⟩ := hblock
  have hword : symbolsOf [space, .word "appliesTo", space] = [.word "appliesTo"] := rfl
  have hentry (v : List Piece) : symbolsOf (entryParts (indent + indentStep) "context" v) =
      .word "context" :: .mark .colon :: (symbolsOf v ++ [.mark .comma]) := by
    simp [entryParts, indentation, newline, space]
  unfold actionParts
  simp only [symbolsOf_append, symbolsOf_appliesToParts, hword, hentry]
  simp only [List.append_assoc, List.cons_append, List.nil_append, List.cons_prefix_cons,
    List.prefix_append_right_inj, true_and]
  exact List.prefix_append ..

private theorem overruns_parts (indent : Nat) (name : Option Name)
    (hplain : ∀ t ∈ m.types, t.IsPlain) (hwf : m.WellFormed TypeRef.IsWritable)
    (hm : ¬ m.WithinDepth) : ∃ w, Overruns name [] w ∧ w <+: symbolsOf (m.parts indent) := by
  have hbody {notes : Annotations} {u : List Symbol} (h : BeginsOverdeep u) :
      ∃ w, Overruns name [] w ∧ w <+: symbolsOf (annotationsParts indent notes) ++ u := by
    obtain ⟨w, hw, hbegins⟩ := h
    exact ⟨_, .body (isNotes_annotationsParts indent notes) hw,
      (List.prefix_append_right_inj _).mpr hbegins⟩
  cases m with
  | commonType id d =>
    have hdepth : ¬ d.body.depth ≤ TypeExpr.maxDepth := fun hle ↦ hm (by
      simpa [Member.WithinDepth, Member.types] using hle)
    have htype := isType_typeParts indent (hplain d.body List.mem_cons_self) hwf
    rw [Member.parts, symbolsOf_declarationParts]
    exact hbody ⟨_, .commonType id htype (lt_depth_normal hdepth), List.prefix_append ..⟩
  | entityType id d =>
    rw [Member.parts, symbolsOf_declarationParts]
    exact hbody (beginsOverdeep_entityParts indent id hplain hwf hm)
  | action id d =>
    rw [Member.parts, symbolsOf_declarationParts]
    exact hbody (beginsOverdeep_actionParts indent id hplain hwf hm)

/-! ### Namespaces and schemas -/

private theorem overruns_members (indent : Nat)
    (hplain : ∀ k ∈ ns.members, ∀ t ∈ k.types, t.IsPlain)
    (hwf : ns.WellFormed TypeRef.IsWritable) (h : ns.BreaksAt m) :
    ∃ ss w, Overruns name ss w ∧ (w <+: ns.members.flatMap fun k ↦ symbolsOf (k.parts indent)) ∧
      ss <+: (ns.mapRefs TypeRef.normal).declarations name := by
  obtain ⟨before, after, hmembers, hbefore⟩ := h.members
  have hwf := hwf.member
  rw [hmembers] at hplain hwf
  rw [List.forall_mem_append, List.forall_mem_cons] at hplain hwf
  have hdecls := isDeclarations_parts indent name
    (fun k hk ↦ vetted_of_withinDepth (hbefore k hk) (hplain.1 k hk)) hwf.1
  obtain ⟨w, hw, hbegins⟩ := overruns_parts indent name hplain.2.1 hwf.2.1 h.overdeep
  refine ⟨_, _, .append hdecls hw, ?_, ?_⟩
  · rw [hmembers, List.flatMap_append, List.flatMap_cons]
    exact (List.prefix_append_right_inj _).mpr (hbegins.trans (List.prefix_append ..))
  · rw [declarations_mapRefs, hmembers, List.map_append, List.append_nil]
    exact List.prefix_append ..

private theorem overruns_namespaceParts (hplain : ∀ k ∈ ns.members, ∀ t ∈ k.types, t.IsPlain)
    (hwf : ns.WellFormed TypeRef.IsWritable) (h : ns.BreaksAt m) :
    ∃ ss w, Overruns none ss w ∧ w <+: symbolsOf (namespaceParts name ns) ∧
      ss <+: (ns.mapRefs TypeRef.normal).statements name := by
  cases name with
  | none =>
    obtain ⟨ss, w, hw, hbegins, hss⟩ := overruns_members 0 hplain hwf h
    rw [namespaceParts, symbolsOf_namespaceDeclarations]
    exact ⟨ss, w, hw, hbegins, hss⟩
  | some n =>
    obtain ⟨ss, w, hw, hbegins, hss⟩ := overruns_members indentStep hplain hwf h
    have hnotes := isNotes_annotationsParts 0 ns.annotations
    refine ⟨_, _, .block hnotes (isPath_nameParts n) hw, ?_, ?_⟩
    · rw [symbolsOf_namespaceParts_some]
      simp only [List.append_assoc, List.cons_append, List.prefix_append_right_inj,
        List.cons_prefix_cons, true_and]
      exact hbegins.trans (List.prefix_append ..)
    · exact List.cons_prefix_cons.mpr ⟨rfl, hss⟩

-- A schema that only nests too deep is written as a text that is refused, whose statements up to
-- there are among those of its normal form.
private theorem overruns_schemaParts (hplain : s.IsPlain) (hwf : s.WellFormed TypeRef.IsWritable)
    (h : s.BreaksAt name ns m) :
    ∃ ss w, Overruns none ss w ∧ w <+: symbolsOf (schemaParts s) ∧ ss <+: s.normal.statements := by
  obtain ⟨before, after, hentries, hbefore⟩ := h.namespaces
  have hwritten : (name.isSome || ns.hasDeclarations) = true := by
    rw [Namespace.hasDeclarations_of_mem h.inside.mem, Bool.or_true]
  obtain ⟨first, last, hsplit, hfirst⟩ : ∃ first last,
      writtenNamespaces s = first ++ (name, ns) :: last ∧ ∀ e ∈ first, e ∈ before := by
    rw [writtenNamespaces, hentries, List.filter_append, List.filter_cons, if_pos hwritten]
    exact ⟨_, _, rfl, fun e he ↦ (List.mem_filter.mp he).1⟩
  have htypes := hplain.types
  have hwf' : ∀ e ∈ s.namespaces.entries, e.2.WellFormed TypeRef.IsWritable :=
    fun e he ↦ hwf e.1 e.2 he
  rw [hentries, List.forall_mem_append, List.forall_mem_cons] at htypes hwf'
  have hdecls := isDeclarations_namespaces
    (fun e he k hk ↦ vetted_of_withinDepth (hbefore e (hfirst e he) k hk)
      (htypes.1 e (hfirst e he) k hk))
    (fun e he ↦ hwf'.1 e (hfirst e he))
  obtain ⟨ss, w, hw, hbegins, hss⟩ := overruns_namespaceParts htypes.2.1 hwf'.2.1 h.inside
  refine ⟨_, _, .append hdecls hw, ?_, ?_⟩
  · rw [symbolsOf_schemaParts, hsplit, List.flatMap_append, List.flatMap_cons]
    exact (List.prefix_append_right_inj _).mpr (hbegins.trans (List.prefix_append ..))
  · rw [statements_normal, hsplit, List.flatMap_append, List.flatMap_cons]
    exact (List.prefix_append_right_inj _).mpr (hss.trans (List.prefix_append ..))

/-- The text of a schema that only nests too deep is not read, for that cause. -/
theorem read_of_breaksAt (file : String) (hplain : s.IsPlain)
    (hwf : s.WellFormed TypeRef.IsWritable) (h : s.BreaksAt name ns m) :
    ∃ e, read ⟨file, render s⟩ = .error e ∧ e.cause = .tooDeep := by
  obtain ⟨ss, w, hw, ⟨left, hleft⟩, hss⟩ := overruns_schemaParts hplain hwf h
  obtain ⟨eof, heof, htokens⟩ := scan_render s
  have hend := scan_ends (render s) .ample
  have hspells := scan_spells (render s)
  rw [heof] at hend
  rw [htokens, ← hleft] at hspells
  obtain ⟨items, span, hread, rfl⟩ :=
    declarations_refuses hend hw (.inl rfl) hspells (Nat.lt_succ_self _)
  have hitems : itemsOf .ample (scan (render s)) = ⟨items, .error ⟨.tooDeep, span⟩⟩ := by
    rw [itemsOf, heof]
    exact hread
  have hdiff := (hss.map Statement.introduced).sublist.nodup s.normal.nodup_introduced
  obtain ⟨s', hs'⟩ : ∃ s', assemble ⟨file, render s⟩ items = .ok s' := assemble_isOk_iff.mpr hdiff
  refine ⟨⟨.tooDeep, ⟨⟨file, render s⟩, span⟩⟩, ?_, rfl⟩
  rw [read, readUnder, hitems, hs']
  rfl

end PolicySchema.Text
