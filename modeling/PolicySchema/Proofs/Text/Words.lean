import PolicySchema.Proofs.Except
import PolicySchema.Proofs.Identifiers
import PolicySchema.Proofs.Text.Acceptance

/-!
# Identifiers come from words

A word token is a word, so an identifier can be refused only for being the reserved one. The grammar
takes each identifier from a word: all identifiers of a schema that is read are written as words in
its text (`exists_word_of_readUnder`).
-/

namespace PolicySchema.Text

open Syntax

/-! ### Word tokens -/

private theorem isWord_of_scanToken {p : Position} {cs : List Char} {t : Token}
    (h : (scanToken p cs).1 = .ok t) (hkind : t.kind = .word) : isWord t.text = true := by
  unfold scanToken at h
  split at h
  · cases h
    cases hkind
  · next cs =>
    obtain ⟨l, -, rfl⟩ := Except.map_eq_ok_iff.mp h
    cases hkind
  · next c cs _ =>
    split at h
    · next hstart =>
      rw [splitWord, List.span_eq_takeWhile_dropWhile] at h
      cases h
      rw [isWord, String.toList_ofList, isWordChars, hstart, Bool.true_and]
      exact List.all_takeWhile
    · split at h
      · cases h
        cases hkind
      · cases h

private theorem markText_of_scanToken {p : Position} {cs : List Char} {t : Token} {m : Mark}
    (h : (scanToken p cs).1 = .ok t) (hkind : t.kind = .mark m) : t.text = m.text := by
  unfold scanToken at h
  split at h
  · cases h
    cases hkind
  · next cs =>
    obtain ⟨l, -, rfl⟩ := Except.map_eq_ok_iff.mp h
    cases hkind
  · next c cs _ =>
    split at h
    · cases h
      cases hkind
    · split at h
      · cases h
        cases hkind
        rfl
      · cases h

private theorem exists_scanToken_of_mem (steps : Nat) : ∀ {cursor : Cursor} {t : Token},
    t ∈ (scanFrom steps cursor).tokens → ∃ p cs, (scanToken p cs).1 = .ok t := by
  have hnext {cursor : Cursor} {t : Token} (h : cursor.next.1 = .ok t) :
      ∃ p cs, (scanToken p cs).1 = .ok t := by
    unfold Cursor.next at h
    split at h
    · cases h
    · exact ⟨_, _, h⟩
  induction steps with
  | zero => exact nofun
  | succ steps ih =>
    intro cursor t ht
    rw [scanFrom] at ht
    split at ht
    · cases ht
    · next u after hu =>
      split at ht
      · cases ht
      · rcases List.mem_cons.mp ht with rfl | ht
        · exact hnext (congrArg Prod.fst hu)
        · exact ih ht

/-- A token that is scanned as a word is one. -/
theorem isWord_of_mem_scan {text : String} {t : Token} (h : t ∈ (scan text).tokens)
    (hkind : t.kind = .word) : isWord t.text = true := by
  obtain ⟨p, cs, ht⟩ := exists_scanToken_of_mem _ h
  exact isWord_of_scanToken ht hkind

/-- A token that is scanned as a mark is written as the mark. -/
theorem text_of_mem_scan {text : String} {t : Token} {m : Mark} (h : t ∈ (scan text).tokens)
    (hkind : t.kind = .mark m) : t.text = m.text := by
  obtain ⟨p, cs, ht⟩ := exists_scanToken_of_mem _ h
  exact markText_of_scanToken ht hkind

/-! ### Repetition -/

section

variable {α : Type} {P : α → List Symbol → Prop} {as : List α} {u : List Symbol}

private def EachIn (P : α → List Symbol → Prop) (as : List α) (u : List Symbol) : Prop :=
  ∀ a ∈ as, ∃ v, P a v ∧ v ⊆ u

private theorem EachIn.mono {v : List Symbol} (h : EachIn P as v) (hsub : v ⊆ u) :
    EachIn P as u := by
  intro a ha
  obtain ⟨w, hw, hsub'⟩ := h a ha
  exact ⟨w, hw, List.Subset.trans hsub' hsub⟩

private theorem EachIn.cons {a : α} {v : List Symbol} (ha : P a v) (hv : v ⊆ u)
    (h : EachIn P as u) : EachIn P (a :: as) u := List.forall_mem_cons.mpr ⟨⟨v, ha, hv⟩, h⟩

private theorem eachIn_of_repeated (h : Syntax.Repeated P as u) : EachIn P as u := by
  induction h with
  | none => exact nofun
  | more ha _ ih => exact .cons ha (by simp) (ih.mono (by simp))

private theorem eachIn_of_separated {m : Mark} (h : Separated m P as u) : EachIn P as u := by
  induction h with
  | last ha => exact .cons ha (List.Subset.refl _) nofun
  | more ha _ ih => exact .cons ha (by simp) (ih.mono (by simp))

private theorem eachIn_of_trailing (h : Trailing P as u) : EachIn P as u := by
  induction h with
  | none => exact nofun
  | last ha => exact .cons ha (List.Subset.refl _) nofun
  | more ha _ ih => exact .cons ha (by simp) (ih.mono (by simp))

private theorem eachIn_of_listed (h : Listed P as u) : EachIn P as u := by
  cases h with
  | single ha => exact .cons ha (List.Subset.refl _) nofun
  | empty => exact nofun
  | bracketed hseparated =>
    refine (eachIn_of_separated hseparated).mono ?_
    exact List.subset_cons_of_subset _ (List.subset_append_left ..)

private theorem eachIn_of_isParents (h : IsParents P as u) : EachIn P as u := by
  cases h with
  | none => exact nofun
  | listed hlisted => exact (eachIn_of_listed hlisted).mono (by simp)

end

/-! ### Identifiers -/

private def Spelled (ids : List Identifier) (u : List Symbol) : Prop :=
  ∀ id ∈ ids, .word id.text ∈ u

private theorem spelled_append_iff {ids others : List Identifier} {u : List Symbol} :
    Spelled (ids ++ others) u ↔ Spelled ids u ∧ Spelled others u := List.forall_mem_append

private theorem spelled_cons_iff {id : Identifier} {ids : List Identifier} {u : List Symbol} :
    Spelled (id :: ids) u ↔ .word id.text ∈ u ∧ Spelled ids u := List.forall_mem_cons

private theorem Spelled.mono {ids : List Identifier} {u v : List Symbol} (h : Spelled ids u)
    (hsub : u ⊆ v) : Spelled ids v := fun id hid ↦ hsub (h id hid)

private theorem EachIn.spelled {α : Type} {P : α → List Symbol → Prop} {as : List α}
    {u : List Symbol} {identifiers : α → List Identifier} (h : EachIn P as u)
    (hspelled : ∀ a v, P a v → Spelled (identifiers a) v) :
    Spelled (as.flatMap identifiers) u := by
  intro id hid
  obtain ⟨a, ha, hid⟩ := List.mem_flatMap.mp hid
  obtain ⟨v, hv, hsub⟩ := h a ha
  exact hsub (hspelled a v hv id hid)

section

variable {u : List Symbol}

private theorem word_mem_of_isIdentifier {id : Identifier} (h : IsIdentifier id u) :
    .word id.text ∈ u := by
  cases h
  exact List.mem_singleton_self _

private theorem spelled_of_isPath {n : Name} (h : IsPath n u) : Spelled n.components u := by
  intro id hid
  obtain ⟨v, hv, hsub⟩ := eachIn_of_separated h id hid
  exact hsub (word_mem_of_isIdentifier hv)

private theorem spelled_of_isNotes {notes : Annotations} (h : IsNotes notes u) :
    Spelled notes.keys u := by
  cases h with
  | listed hrepeated _ =>
    intro id hid
    obtain ⟨e, he, rfl⟩ := List.mem_map.mp hid
    obtain ⟨v, hv, hsub⟩ := eachIn_of_repeated hrepeated e (Table.mem_of_mem_ofList he)
    cases hv with
    | keyed _ => exact hsub (by simp)

private theorem identifiers_of_means {n : Name} {r : TypeRef} (h : Means n r) :
    r.identifiers ⊆ n.components := by
  cases h with
  | primitive _ _ => exact List.nil_subset _
  | builtinPrimitive _ _ => exact List.nil_subset _
  | extension hbuiltin _ =>
    rw [Name.builtin?] at hbuiltin
    split at hbuiltin <;> cases hbuiltin
    exact List.subset_append_right ..
  | other _ _ => exact List.Subset.refl _

end

/-! ### Types -/

private theorem eachIn_of_isRecord {fields : Fields TypeRef} {u : List Symbol}
    (h : IsRecord fields u) : EachIn IsAttribute fields.toList u := by
  cases h with
  | @braces attributes _ htrailing _ =>
    rw [Fields.ofTable, Fields.toList_ofList]
    intro e he
    obtain ⟨v, hv, hsub⟩ := eachIn_of_trailing htrailing e (Table.mem_of_mem_ofList he)
    refine ⟨v, hv, List.Subset.trans hsub ?_⟩
    exact List.subset_cons_of_subset _ (List.subset_append_left ..)

private theorem exists_of_isAttribute {e : String × Attribute TypeRef} {u : List Symbol}
    (h : IsAttribute e u) :
    (∃ v, IsNotes e.2.annotations v ∧ v ⊆ u) ∧ ∃ v, IsType e.2.type v ∧ v ⊆ u := by
  cases h with
  | required hnotes _ htype => exact ⟨⟨_, hnotes, by grind⟩, _, htype, by grind⟩
  | optional hnotes _ htype => exact ⟨⟨_, hnotes, by grind⟩, _, htype, by grind⟩

-- The induction is on the type and not on its derivation, in which attributes are listed.
mutual

private theorem spelled_of_isType : ∀ {t : TypeExpr TypeRef} {u : List Symbol}, IsType t u →
    Spelled t.identifiers u
  | .leaf r, u, h => by
    cases h with
    | named hpath hmeans =>
      exact fun id hid ↦ spelled_of_isPath hpath id (identifiers_of_means hmeans hid)
  | .set element, u, h => by
    cases h with
    | set helement => exact (spelled_of_isType helement).mono (by grind)
  | .record fields notes, u, h => by
    cases h with
    | record hrecord =>
      exact spelled_append_iff.mpr ⟨nofun, spelled_of_fields (eachIn_of_isRecord hrecord)⟩

private theorem spelled_of_fields : ∀ {fields : Fields TypeRef} {u : List Symbol},
    EachIn IsAttribute fields.toList u → Spelled fields.identifiers u
  | .nil, _, _ => nofun
  | .cons key type required notes rest, u, h => by
    rw [EachIn, Fields.toList, List.forall_mem_cons] at h
    obtain ⟨⟨v, hv, hsub⟩, hrest⟩ := h
    obtain ⟨⟨w, hnotes, hw⟩, w', htype, hw'⟩ := exists_of_isAttribute hv
    refine spelled_append_iff.mpr ⟨spelled_append_iff.mpr ⟨?_, ?_⟩, spelled_of_fields hrest⟩
    · exact (spelled_of_isNotes hnotes).mono (List.Subset.trans hw hsub)
    · exact (spelled_of_isType htype).mono (List.Subset.trans hw' hsub)

end

/-! ### Declarations -/

section

variable {u : List Symbol}

private theorem eachIn_of_isShape {shape : Option (RecordType TypeRef)} (h : IsShape shape u) :
    EachIn IsType (shape.map RecordType.toType).toList u := by
  cases h with
  | none => exact nofun
  | bare hrecord _ => exact .cons (.record hrecord) (List.Subset.refl _) nofun
  | equals hrecord _ => exact .cons (.record hrecord) (by simp) nofun

private theorem eachIn_of_isTags {tags : Option (TypeExpr TypeRef)} (h : IsTags tags u) :
    EachIn IsType tags.toList u := by
  cases h with
  | none => exact nofun
  | some htype _ => exact .cons htype (by simp) nofun

private theorem eachIn_of_isActionRef {refs : List ActionRef} (h : EachIn IsActionRef refs u) :
    EachIn IsPath (refs.filterMap ActionRef.type) u := by
  intro n hn
  obtain ⟨ref, href, hn⟩ := List.mem_filterMap.mp hn
  obtain ⟨v, hv, hsub⟩ := h ref href
  cases hv with
  | literal _ => cases hn
  | identifier _ => cases hn
  | typed _ hpath =>
    cases hn
    exact ⟨_, hpath, List.Subset.trans (List.subset_append_left ..) hsub⟩

private theorem eachIn_of_findSome? {entries : List Entry} {names? : Entry → Option (List Name)}
    (h : EachIn IsEntry entries u)
    (hnames : ∀ e v names, IsEntry e v → names? e = some names → EachIn IsPath names v) :
    EachIn IsPath ((entries.findSome? names?).getD []) u := by
  cases hfind : entries.findSome? names? with
  | none => exact nofun
  | some names =>
    obtain ⟨e, he, hgives⟩ := List.exists_of_findSome?_eq_some hfind
    obtain ⟨v, hv, hsub⟩ := h e he
    exact (hnames e v names hv hgives).mono hsub

private theorem eachIn_ofEntries {entries : List Entry} (h : EachIn IsEntry entries u) :
    EachIn IsPath (ofEntries entries).names u ∧
      EachIn IsType (ofEntries entries).context.toList u := by
  refine ⟨List.forall_mem_append.mpr ⟨eachIn_of_findSome? h ?_, eachIn_of_findSome? h ?_⟩, ?_⟩
  · rintro e v names hv hgives
    cases hv with
    | principals hlisted =>
      cases hgives
      exact (eachIn_of_listed hlisted).mono (by simp)
    | _ => cases hgives
  · rintro e v names hv hgives
    cases hv with
    | resources hlisted =>
      cases hgives
      exact (eachIn_of_listed hlisted).mono (by simp)
    | _ => cases hgives
  · intro t ht
    obtain ⟨e, he, hgives⟩ := List.exists_of_findSome?_eq_some (Option.mem_toList.mp ht)
    obtain ⟨v, hv, hsub⟩ := h e he
    cases hv with
    | context htype _ =>
      cases hgives
      exact ⟨_, htype, List.Subset.trans (by simp) hsub⟩
    | _ => cases hgives

private theorem eachIn_of_isAppliesTo {block : Option AppliesTo} (h : IsAppliesTo block u) :
    EachIn IsPath (block.toList.flatMap AppliesTo.names) u ∧
      EachIn IsType (block.bind AppliesTo.context).toList u := by
  cases h with
  | none => exact ⟨nofun, nofun⟩
  | block hentries _ =>
    rw [Option.toList_some, List.flatMap_singleton, Option.bind_some]
    exact eachIn_ofEntries ((eachIn_of_trailing hentries).mono (by grind))

private theorem spelled_entityType {e : EntityType} (hparents : EachIn IsPath e.memberOf u)
    (htypes : EachIn IsType (entityTypeExprs e) u) : Spelled e.identifiers u :=
  spelled_append_iff.mpr ⟨hparents.spelled fun _ _ ↦ spelled_of_isPath,
    htypes.spelled fun _ _ ↦ spelled_of_isType⟩

private theorem spelled_action {a : Action} (hnames : EachIn IsPath a.names u)
    (htypes : EachIn IsType (actionTypeExprs a) u) : Spelled a.identifiers u :=
  spelled_append_iff.mpr ⟨hnames.spelled fun _ _ ↦ spelled_of_isPath,
    htypes.spelled fun _ _ ↦ spelled_of_isType⟩

-- What a declaration states is about its namespace, and its identifiers are spelled if those of its
-- annotations are.
private theorem spelled_of_isBody {ns : Option Name} {notes : Annotations} {ss : List Statement}
    {v : List Symbol} (h : IsBody ns notes ss v) (hnotes : Spelled notes.keys u) (hsub : v ⊆ u) :
    ∀ t ∈ ss, t.about = ns ∧ Spelled t.identifiers u := by
  cases h with
  | @entity keys memberOf shape tags k m s t hkeys hparents hshape htags =>
    refine List.forall_mem_map.mpr fun key hkey ↦ ⟨rfl, ?_⟩
    obtain ⟨w, hw, hkeysub⟩ := eachIn_of_separated hkeys key hkey
    have hbody : Spelled (EntityType.standard memberOf shape tags).identifiers u := by
      refine spelled_entityType ?_ (List.forall_mem_append.mpr ⟨?_, ?_⟩)
      · exact (eachIn_of_isParents hparents).mono (List.Subset.trans (by grind) hsub)
      · exact (eachIn_of_isShape hshape).mono (List.Subset.trans (by grind) hsub)
      · exact (eachIn_of_isTags htags).mono (List.Subset.trans (by grind) hsub)
    refine spelled_append_iff.mpr ⟨spelled_cons_iff.mpr ⟨hsub ?_, hnotes⟩, hbody⟩
    have := hkeysub (word_mem_of_isIdentifier hw)
    grind
  | enum _ _ =>
    refine List.forall_mem_singleton.mpr ⟨rfl, ?_⟩
    exact spelled_append_iff.mpr ⟨spelled_cons_iff.mpr ⟨hsub (by simp), hnotes⟩, nofun⟩
  | @action keys memberOf block k m a hkeys hparents happlies =>
    refine List.forall_mem_map.mpr fun key _ ↦ ⟨rfl, ?_⟩
    obtain ⟨hnames, htypes⟩ := eachIn_of_isAppliesTo happlies
    refine spelled_append_iff.mpr ⟨hnotes, spelled_action (List.forall_mem_append.mpr ⟨?_, ?_⟩) ?_⟩
    · have hrefs := eachIn_of_isActionRef (eachIn_of_isParents hparents)
      exact hrefs.mono (List.Subset.trans (by grind) hsub)
    · exact hnames.mono (List.Subset.trans (by grind) hsub)
    · exact htypes.mono (List.Subset.trans (by grind) hsub)
  | commonType htype _ =>
    refine List.forall_mem_singleton.mpr ⟨rfl, spelled_append_iff.mpr ⟨?_, ?_⟩⟩
    · exact spelled_cons_iff.mpr ⟨hsub (by simp), hnotes⟩
    · exact (spelled_of_isType htype).mono (List.Subset.trans (by grind) hsub)

end

private def outer (ns : Option Name) : List Identifier := ns.toList.flatMap Name.components

-- The identifiers of a statement are spelled, and so are those in the name of the namespace that it
-- is about, other than those of the namespace in which it is stated.
private def StatementSpelled (ns : Option Name) (u : List Symbol) (t : Statement) : Prop :=
  Spelled t.identifiers u ∧ ∀ id ∈ outer t.about, id ∈ outer ns ∨ .word id.text ∈ u

private theorem StatementSpelled.mono {ns : Option Name} {u v : List Symbol} {t : Statement}
    (h : StatementSpelled ns u t) (hsub : u ⊆ v) : StatementSpelled ns v t :=
  ⟨h.1.mono hsub, fun id hid ↦ (h.2 id hid).imp_right fun hword ↦ hsub hword⟩

private theorem mem_outer_blockName {ns : Option Name} {n : Name} {id : Identifier}
    (h : id ∈ outer (some (blockName ns n))) : id ∈ outer ns ∨ id ∈ n.components := by
  cases ns with
  | none => exact .inr (by simpa [outer, blockName] using h)
  | some m => simpa [outer, blockName, Name.components_append] using h

mutual

private theorem spelled_of_isDeclaration {ns : Option Name} {ss : List Statement}
    {u : List Symbol} : IsDeclaration ns ss u → ∀ t ∈ ss, StatementSpelled ns u t
  | @IsDeclaration.block _ n notes _ v w x hnotes hpath hinside => by
    have hname {id : Identifier} (hid : id ∈ outer (some (blockName ns n))) :
        id ∈ outer ns ∨ .word id.text ∈
          v ++ .word "namespace" :: w ++ .mark .leftBrace :: x ++ [.mark .rightBrace] := by
      refine (mem_outer_blockName hid).imp_right fun hid ↦ ?_
      have := spelled_of_isPath hpath id hid
      grind
    refine List.forall_mem_cons.mpr ⟨⟨?_, fun id ↦ hname⟩, fun t ht ↦ ?_⟩
    · exact (spelled_of_isNotes hnotes).mono (by grind)
    · obtain ⟨hown, habout⟩ := spelled_of_isDeclarations hinside t ht
      refine ⟨hown.mono (by grind), fun id hid ↦ ?_⟩
      rcases habout id hid with hid | hword
      · exact hname hid
      · exact .inr (by grind)
  | .body hnotes hbody => by
    intro t ht
    obtain ⟨habout, hown⟩ := spelled_of_isBody hbody
      ((spelled_of_isNotes hnotes).mono (List.subset_append_left ..))
      (List.subset_append_right ..) t ht
    exact ⟨hown, fun id hid ↦ .inl (habout ▸ hid)⟩

private theorem spelled_of_isDeclarations {ns : Option Name} {ss : List Statement}
    {u : List Symbol} : IsDeclarations ns ss u → ∀ t ∈ ss, StatementSpelled ns u t
  | .none => nofun
  | .more hfirst hrest => List.forall_mem_append.mpr
      ⟨fun t ht ↦ (spelled_of_isDeclaration hfirst t ht).mono (List.subset_append_left ..),
        fun t ht ↦ (spelled_of_isDeclarations hrest t ht).mono (List.subset_append_right ..)⟩

end

/-! ### Schemas -/

variable {s : Schema} {ss : List Statement}

-- The name of a namespace is that of the statements about it, the annotations are those of its
-- block, and its members are stated.
private theorem spelled_of_holds {u : List Symbol} (hs : s.Holds ss)
    (hspelled : ∀ t ∈ ss, StatementSpelled none u t) : Spelled s.identifiers u := by
  refine List.forall_mem_flatMap.mpr fun ⟨name, ns⟩ he ↦ ?_
  have hns : s.namespace? name = some ns := Table.find?_eq_some_iff.mpr he
  refine spelled_append_iff.mpr ⟨?_, spelled_append_iff.mpr ⟨?_, ?_⟩⟩
  · obtain ⟨t, ht, rfl⟩ := (hs.namespaces name).mp (by rw [hns]; rfl)
    exact fun id hid ↦ ((hspelled t ht).2 id hid).resolve_left nofun
  · have hnotes : s.annotations name = ns.annotations := by rw [Schema.annotations, hns]; rfl
    by_cases hblock : ∃ n notes, .block n notes ∈ ss ∧ name = some n
    · obtain ⟨n, notes, hmem, rfl⟩ := hblock
      rw [← hnotes, hs.annotated n notes hmem]
      exact (hspelled _ hmem).1
    · rw [← hnotes, hs.unannotated name fun n notes hmem hname ↦ hblock ⟨n, notes, hmem, hname⟩]
      exact nofun
  · refine List.forall_mem_flatMap.mpr fun m hm ↦ ?_
    rw [← m.identifiers_statement name]
    exact (hspelled _ (hs.statement_mem hns m hm)).1

/-- Each identifier of a schema that is read from a text is written in it as a word. -/
theorem exists_word_of_readUnder {exhausted : StackMap} {source : Source}
    (h : readUnder exhausted source = .ok s) :
    ∀ id ∈ s.identifiers, ∃ t ∈ (scan source.text).tokens, t.kind = .word ∧ t.text = id.text := by
  intro id hid
  obtain ⟨ss, hdecl, hs⟩ := exists_statements_of_readUnder h
  have hword := spelled_of_holds hs (spelled_of_isDeclarations hdecl) id hid
  obtain ⟨t, ht, hsymbol⟩ := List.mem_map.mp hword
  have hshows := shows_of_mem_scan ht
  rw [hsymbol] at hshows
  cases hshows
  exact ⟨_, ht, rfl, rfl⟩

end PolicySchema.Text
