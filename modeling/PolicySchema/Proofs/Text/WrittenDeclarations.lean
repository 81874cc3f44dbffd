import PolicySchema.Proofs.Text.WrittenTypes

/-!
# Writing declarations

The pieces of the declarations of a namespace scan as their symbols, and these symbols are what the
grammar derives for the declarations in their normal form. Between the name of a declaration and its
semicolon stand clauses, each of which may be left out (`Clause`).
-/

namespace PolicySchema.Text.Writing

open Syntax Grammar

variable {ps qs : List Piece}

/-! ### Clauses -/

/-- The pieces may stand after a word, and scan before what cannot go on with a word. -/
def Clause (ps : List Piece) : Prop := Scans ps ∧ (ps = [] ∨ Breaks ps)

private theorem scans_nil : Scans [] := sealed_nil.scans

private theorem Clause.nil : Clause [] := ⟨scans_nil, .inl rfl⟩

private theorem breaks_append (h : Breaks ps) (qs : List Piece) : Breaks (ps ++ qs) := by
  obtain ⟨c, cs, hcs, hc⟩ := h
  refine ⟨c, cs ++ charsOf qs, ?_, hc⟩
  have happend : charsOf (ps ++ qs) = charsOf ps ++ charsOf qs := List.flatMap_append
  rw [happend, hcs, List.cons_append]

private theorem Clause.after (hq : Clause qs) (hp : Scans ps) : Scans (ps ++ qs) := by
  rcases hq.2 with h | h
  · rw [h, List.append_nil]
    exact hp
  · exact hp.append_scans hq.1 h

private theorem Clause.append (hp : Clause ps) (hq : Clause qs) : Clause (ps ++ qs) := by
  refine ⟨hq.after hp.1, ?_⟩
  rcases hp.2 with h | h
  · rw [h, List.nil_append]
    exact hq.2
  · exact .inr (breaks_append h qs)

private theorem scans_space (h : Scans ps) : Scans (space :: ps) :=
  (sealed_space sealed_nil).append_scans h

private theorem clause_space (h : Scans ps) : Clause (space :: ps) :=
  ⟨scans_space h, .inr (breaks_space ps)⟩

private theorem clause_word {word : String} (hw : isWord word = true) (h : Scans ps) :
    Clause ([space, .word word, space] ++ ps) :=
  clause_space ((scans_word hw).append_scans (scans_space h) (breaks_space ps))

/-! ### Entity types -/

private theorem clause_names (names : List Name) :
    Clause (if names.isEmpty then []
      else [space, .word "in", space] ++ listParts (names.map nameParts)) := by
  split
  · exact .nil
  · exact clause_word (by decide) (sealed_listParts fun n _ ↦ scans_nameParts n).scans

private theorem clause_entityParts (indent : Nat) (e : EntityType) :
    Clause (entityParts indent e) := by
  cases e with
  | enumerated first others =>
    have h : Sealed (listParts ((first :: others).map fun v ↦ [Piece.literal v])) :=
      sealed_listParts fun v _ ↦ (Sealed.literal v sealed_nil).scans
    exact clause_word (by decide) h.scans
  | standard memberOf shape tags =>
    refine ((clause_names memberOf).append ?_).append ?_
    · cases shape with
      | none => exact .nil
      | some r => exact clause_space (scans_typeParts indent r.toType)
    · cases tags with
      | none => exact .nil
      | some t => exact clause_word (by decide) (scans_typeParts indent t)

/-- The written parents of an entity type are recognised as parents. -/
theorem isParents_names (names : List Name) :
    IsParents IsPath names (symbolsOf (if names.isEmpty then []
      else [space, .word "in", space] ++ listParts (names.map nameParts))) := by
  cases names with
  | nil => exact .none
  | cons n names => exact .listed (listed_listParts fun m _ ↦ isPath_nameParts m)

/-- A record without annotations is written as its normal form. -/
theorem isRecord_shape (indent : Nat) {r : RecordType TypeRef} (h : r.toType.IsPlain)
    (hwf : r.toType.WellFormed TypeRef.IsWritable) :
    r.mapRefs TypeRef.normal = ⟨r.fields.mapRefs TypeRef.normal, ∅⟩ ∧
      IsRecord (r.fields.mapRefs TypeRef.normal) (symbolsOf (typeParts indent r.toType)) := by
  have htype := isType_typeParts indent h hwf
  obtain ⟨fields, notes⟩ := r
  obtain ⟨rfl, -⟩ := h
  cases htype with
  | record hfields => exact ⟨rfl, hfields⟩

/-- The written shape of an entity type is recognised as its shape. -/
theorem isShape_clause (indent : Nat) (shape : Option (RecordType TypeRef)) :
    (∀ r ∈ shape, Vetted r.toType) → (∀ r ∈ shape, r.toType.WellFormed TypeRef.IsWritable) →
      IsShape (shape.map (·.mapRefs TypeRef.normal)) (symbolsOf (match shape with
        | none => []
        | some r => space :: typeParts indent r.toType)) := by
  intro h hwf
  cases shape with
  | none => exact .none
  | some r =>
    obtain ⟨hnormal, hrecord⟩ := isRecord_shape indent (h r rfl).plain (hwf r rfl)
    have hdepth : (r.fields.mapRefs TypeRef.normal).depth < TypeExpr.maxDepth :=
      (h r rfl).depth_mapRefs _
    rw [Option.map_some, hnormal]
    exact .bare hrecord hdepth

private theorem isTags_clause (indent : Nat) (tags : Option (TypeExpr TypeRef)) :
    (∀ t ∈ tags, Vetted t) → (∀ t ∈ tags, t.WellFormed TypeRef.IsWritable) →
      IsTags (tags.map (·.mapRefs TypeRef.normal)) (symbolsOf (match tags with
        | none => []
        | some t => [space, .word "tags", space] ++ typeParts indent t)) := by
  intro h hwf
  cases tags with
  | none => exact .none
  | some t =>
    exact .some (isType_typeParts indent (h t rfl).plain (hwf t rfl)) ((h t rfl).depth_mapRefs _)

private theorem isBody_entityParts (indent : Nat) (ns : Option Name) (notes : Annotations)
    (key : Identifier) {e : EntityType} (h : ∀ t ∈ entityTypeExprs e, Vetted t)
    (hwf : e.WellFormed TypeRef.IsWritable) :
    IsBody ns notes [.entityType ns key (e.mapRefs TypeRef.normal) notes]
      (.word "entity" :: .word key.text :: symbolsOf (entityParts indent e) ++
        [.mark .semicolon]) := by
  cases e with
  | enumerated first others =>
    obtain ⟨u, hu, hvalues⟩ := symbolsOf_listParts (f := fun v ↦ [Piece.literal v]) first others
      fun v _ ↦ IsLiteral.literal v
    have hbody : IsBody ns notes [.entityType ns key (.enumerated first others) notes] _ :=
      .enum hvalues hwf
    rw [entityParts, symbolsOf_append, hu]
    simpa [space, EntityType.mapRefs] using hbody
  | standard memberOf shape tags =>
    obtain ⟨hshapes, htypes⟩ := (forall_mem_entityTypeExprs memberOf).mp h
    have hshape := isShape_clause indent shape hshapes hwf.1
    have htags := isTags_clause indent tags htypes hwf.2
    have hbody : IsBody ns notes _ _ :=
      .entity (.last (.word key)) (isParents_names memberOf) hshape htags
    unfold entityParts
    simp only [symbolsOf_append, List.append_assoc, List.cons_append, List.nil_append] at hbody ⊢
    exact hbody

/-! ### Actions -/

private theorem scans_actionRefParts (r : ActionRef) : Scans (actionRefParts r) := by
  rw [actionRefParts]
  split
  · exact scans_key r.id
  · next n _ =>
    have hid := Sealed.mark .doubleColon (by decide) (Sealed.literal r.id sealed_nil)
    exact (scans_nameParts n).append_scans hid.scans (breaks_mark ..)

private theorem isActionRef_actionRefParts (r : ActionRef) :
    IsActionRef r (symbolsOf (actionRefParts r)) := by
  obtain ⟨type, id⟩ := r
  cases type with
  | none =>
    change IsActionRef ⟨none, id⟩ (symbolsOf [key id])
    rw [key]
    split
    · next h => exact .identifier ⟨id, h⟩
    · exact .literal id
  | some n =>
    rw [actionRefParts, symbolsOf_append]
    exact .typed id (isPath_nameParts n)

private theorem sealed_entryParts (indent : Nat) {word : String} (hw : isWord word = true)
    {value : List Piece} (h : Scans value) : Sealed (entryParts indent word value) := by
  have hcomma := Sealed.mark .comma (by decide) (sealed_newline sealed_nil)
  have hend := h.append hcomma (breaks_mark ..)
  have hline := sealed_indentation indent ((scans_word hw).append hend.colon (breaks_mark ..))
  rw [entryParts]
  simpa using hline

private theorem sealed_namesEntryParts (indent : Nat) {word : String} (hw : isWord word = true)
    (names : List Name) : Sealed (namesEntryParts indent word names) := by
  rw [namesEntryParts]
  split
  · exact sealed_nil
  · exact sealed_entryParts indent hw (sealed_listParts fun n _ ↦ scans_nameParts n).scans

private theorem sealed_appliesToParts (indent : Nat) (a : AppliesTo) :
    Sealed (appliesToParts indent a) := by
  have hclose : Sealed [Piece.mark .rightBrace] := Sealed.mark .rightBrace (by decide) sealed_nil
  unfold appliesToParts
  split
  · exact Sealed.mark .leftBrace (by decide) hclose
  · have hopen := Sealed.mark .leftBrace (by decide) (sealed_newline sealed_nil)
    have hprincipals : Sealed (namesEntryParts (indent + indentStep) "principal" a.principals) :=
      sealed_namesEntryParts _ (by decide) _
    have hresources : Sealed (namesEntryParts (indent + indentStep) "resource" a.resources) :=
      sealed_namesEntryParts _ (by decide) _
    refine (((hopen.append hprincipals).append hresources).append ?_).append
      (sealed_indentation indent hclose)
    cases a.context with
    | none => exact sealed_nil
    | some t => exact sealed_entryParts _ (by decide) (scans_typeParts _ t)

private theorem clause_actionParts (indent : Nat) (a : Action) :
    Clause (actionParts indent a) := by
  have hrefs : Sealed (listParts (a.memberOf.map actionRefParts)) :=
    sealed_listParts fun r _ ↦ scans_actionRefParts r
  unfold actionParts
  refine Clause.append ?_ ?_
  · split
    · exact .nil
    · exact clause_word (by decide) hrefs.scans
  · cases a.appliesTo with
    | none => exact .nil
    | some block => exact clause_word (by decide) (sealed_appliesToParts indent block).scans

/-- The written parents of an action are recognised as parents. -/
theorem isParents_actionRefs (refs : List ActionRef) :
    IsParents IsActionRef refs (symbolsOf (if refs.isEmpty then []
      else [space, .word "in", space] ++ listParts (refs.map actionRefParts))) := by
  cases refs with
  | nil => exact .none
  | cons r refs => exact .listed (listed_listParts fun q _ ↦ isActionRef_actionRefParts q)

private def entriesOf (a : AppliesTo) : List Entry :=
  (if a.principals.isEmpty then [] else [.principals a.principals]) ++
    ((if a.resources.isEmpty then [] else [.resources a.resources]) ++
      (a.context.map Entry.context).toList)

private theorem ofEntries_entriesOf (a : AppliesTo) : ofEntries (entriesOf a) = a := by
  obtain ⟨principals, resources, context⟩ := a
  cases principals <;> cases resources <;> cases context <;> rfl

private theorem nodup_key_entriesOf (a : AppliesTo) : ((entriesOf a).map Entry.key).Nodup := by
  obtain ⟨principals, resources, context⟩ := a
  cases principals <;> cases resources <;> cases context <;> simp [entriesOf, Entry.key]

/-- The entry for a list of names is written if the list is not empty, with a comma after it. -/
theorem punctuated_namesEntryParts (indent : Nat) {word : String} {entry : List Name → Entry}
    (hentry : ∀ {names u}, Listed IsPath names u →
      IsEntry (entry names) (.word word :: .mark .colon :: u)) (names : List Name) :
    Punctuated IsEntry (if names.isEmpty then [] else [entry names])
      (symbolsOf (namesEntryParts indent word names)) := by
  cases names with
  | nil => exact .none
  | cons n names =>
    have hnames : Listed IsPath (n :: names) _ := listed_listParts fun m _ ↦ isPath_nameParts m
    have hone : Punctuated IsEntry [entry (n :: names)] _ := .more ⟨_, hentry hnames, rfl⟩ .none
    simpa [namesEntryParts, entryParts, indentation, newline, space] using hone

/-- The entries of a block are written in braces, and the braces are written without any too. -/
theorem symbolsOf_appliesToParts (indent : Nat) (a : AppliesTo) :
    symbolsOf (appliesToParts indent a) = .mark .leftBrace ::
      (symbolsOf (namesEntryParts (indent + indentStep) "principal" a.principals) ++
        (symbolsOf (namesEntryParts (indent + indentStep) "resource" a.resources) ++
          (symbolsOf (match a.context with
            | none => []
            | some t => entryParts (indent + indentStep) "context"
              (typeParts (indent + indentStep) t)) ++ [.mark .rightBrace]))) := by
  unfold appliesToParts
  split
  · next hempty =>
    simp only [Bool.and_eq_true, List.isEmpty_iff, Option.isNone_iff_eq_none] at hempty
    simp [hempty, namesEntryParts]
  · simp only [symbolsOf_append, List.append_assoc]
    rfl

private theorem isAppliesTo_appliesToParts (indent : Nat) {a : AppliesTo}
    (h : ∀ t ∈ a.context, Vetted t) (hwf : ∀ t ∈ a.context, t.WellFormed TypeRef.IsWritable) :
    IsAppliesTo (some (a.mapRefs TypeRef.normal))
      (.word "appliesTo" :: symbolsOf (appliesToParts indent a)) := by
  have hcontext : Trailing IsEntry
      ((a.mapRefs TypeRef.normal).context.map Entry.context).toList
      (symbolsOf (match a.context with
        | none => []
        | some t => entryParts (indent + indentStep) "context"
          (typeParts (indent + indentStep) t))) := by
    rw [AppliesTo.mapRefs]
    cases hc : a.context with
    | none => exact .none
    | some t =>
      have htype := isType_typeParts (indent + indentStep) (h t hc).plain (hwf t hc)
      have hmore := Trailing.more (IsEntry.context htype ((h t hc).depth_mapRefs _)) .none
      simpa [entryParts, indentation, newline, space] using hmore
  have hentries : Trailing IsEntry (entriesOf (a.mapRefs TypeRef.normal)) _ :=
    (punctuated_namesEntryParts (indent + indentStep) .principals a.principals).trailing
      ((punctuated_namesEntryParts (indent + indentStep) .resources a.resources).trailing hcontext)
  have hblock := IsAppliesTo.block hentries (nodup_key_entriesOf _)
  rw [ofEntries_entriesOf] at hblock
  rw [symbolsOf_appliesToParts]
  simpa using hblock

private theorem isAppliesTo_clause (indent : Nat) (appliesTo : Option AppliesTo) :
    (∀ block ∈ appliesTo, ∀ t ∈ block.context, Vetted t) →
      (∀ block ∈ appliesTo, ∀ t ∈ block.context, t.WellFormed TypeRef.IsWritable) →
      IsAppliesTo (appliesTo.map (·.mapRefs TypeRef.normal)) (symbolsOf (match appliesTo with
        | none => []
        | some block => [space, .word "appliesTo", space] ++ appliesToParts indent block)) := by
  intro h hwf
  cases appliesTo with
  | none => exact .none
  | some block => exact isAppliesTo_appliesToParts indent (h block rfl) (hwf block rfl)

private theorem isBody_actionParts (indent : Nat) (ns : Option Name) (notes : Annotations)
    (id : String) {a : Action} (h : ∀ t ∈ actionTypeExprs a, Vetted t)
    (hwf : a.WellFormed TypeRef.IsWritable) :
    IsBody ns notes [.action ns id (a.mapRefs TypeRef.normal) notes]
      (.word "action" :: symbolsOf [key id] ++ symbolsOf (actionParts indent a) ++
        [.mark .semicolon]) := by
  have hblock := isAppliesTo_clause indent a.appliesTo (forall_mem_actionTypeExprs.mp h) hwf
  have hbody : IsBody ns notes _ _ :=
    .action (.last (isKey_key id)) (isParents_actionRefs a.memberOf) hblock
  unfold actionParts
  simp only [symbolsOf_append, List.append_assoc, List.cons_append, List.nil_append] at hbody ⊢
  exact hbody

/-! ### Whole declarations -/

private theorem sealed_declarationParts (indent : Nat) (notes : Annotations) {word : String}
    (hw : isWord word = true) {name : Piece} (hname : Scans [name]) {body : List Piece}
    (hbody : Clause body) : Sealed (declarationParts indent notes word name body) := by
  have hend := (hbody.after hname).append
    (Sealed.mark .semicolon (by decide) (sealed_newline sealed_nil)) (breaks_mark ..)
  have hline := (scans_word hw).append (sealed_space hend) (breaks_space _)
  have hall := (sealed_annotationsParts indent notes).append (sealed_indentation indent hline)
  rw [declarationParts]
  simpa using hall

/-- The members of a namespace are sealed. -/
theorem sealed_parts (indent : Nat) (m : Namespace.Member) : Sealed (m.parts indent) := by
  cases m with
  | commonType id d =>
    have htype := (Sealed.mark .equals (by decide) (sealed_space sealed_nil)).append_scans
      (scans_typeParts indent d.body)
    exact sealed_declarationParts indent _ (by decide) (scans_identifier id) (clause_space htype)
  | entityType id d =>
    exact sealed_declarationParts indent _ (by decide) (scans_identifier id)
      (clause_entityParts indent d.body)
  | action id d =>
    exact sealed_declarationParts indent _ (by decide) (scans_key id)
      (clause_actionParts indent d.body)

/-- A declaration is written after its annotations, with a semicolon at its end. -/
theorem symbolsOf_declarationParts (indent : Nat) (notes : Annotations) (word : String)
    (piece : Piece) (body : List Piece) :
    symbolsOf (declarationParts indent notes word piece body) =
      symbolsOf (annotationsParts indent notes) ++
        (.word word :: symbolsOf [piece] ++ symbolsOf body ++ [.mark .semicolon]) := by
  have hpiece : symbolsOf [indentation indent, .word word, space, piece] =
      .word word :: symbolsOf [piece] := rfl
  simp only [declarationParts, symbolsOf_append, hpiece]
  simp [newline]

/-- A member of a namespace is written as its normal form, if the text form can hold its types. -/
theorem isDeclaration_parts (indent : Nat) (name : Option Name) {m : Namespace.Member}
    (h : ∀ t ∈ m.types, Vetted t) (hwf : m.WellFormed TypeRef.IsWritable) :
    IsDeclaration name [(m.mapRefs TypeRef.normal).statement name]
      (symbolsOf (m.parts indent)) := by
  cases m with
  | commonType id d =>
    have ht : Vetted d.body := h d.body List.mem_cons_self
    have hbody : IsBody name d.annotations [.commonType name id _ _] _ :=
      .commonType (isType_typeParts indent ht.plain hwf) (ht.depth_mapRefs _)
    rw [Namespace.Member.parts, symbolsOf_declarationParts]
    exact .body (isNotes_annotationsParts indent _) hbody
  | entityType id d =>
    rw [Namespace.Member.parts, symbolsOf_declarationParts]
    exact .body (isNotes_annotationsParts indent _) (isBody_entityParts indent name _ id h hwf)
  | action id d =>
    rw [Namespace.Member.parts, symbolsOf_declarationParts]
    exact .body (isNotes_annotationsParts indent _) (isBody_actionParts indent name _ id h hwf)

/-- Members of a namespace are written as their normal forms, if the text form can hold them. -/
theorem isDeclarations_parts (indent : Nat) (name : Option Name) {ms : List Namespace.Member}
    (h : ∀ m ∈ ms, ∀ t ∈ m.types, Vetted t) (hwf : ∀ m ∈ ms, m.WellFormed TypeRef.IsWritable) :
    IsDeclarations name (ms.map fun m ↦ (m.mapRefs TypeRef.normal).statement name)
      (ms.flatMap fun m ↦ symbolsOf (m.parts indent)) := by
  induction ms with
  | nil => exact .none
  | cons m ms ih =>
    rw [List.forall_mem_cons] at h hwf
    exact .more (isDeclaration_parts indent name h.1 hwf.1) (ih h.2 hwf.2)

end PolicySchema.Text.Writing
