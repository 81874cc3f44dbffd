import PolicySchema.Proofs.Text.Lockstep

/-!
# The grammar in lockstep

Each production of the grammar goes along two corresponding texts in lockstep. What it gives is the
same for both, with names and declarations at corresponding stretches.
-/

namespace PolicySchema.Text.Likeness

open Grammar

variable {l : Likeness} {α : Type}

/-! ### Names and annotations -/

/-- Identifiers are read in lockstep, each with its place. -/
theorem lockstep_identifier : l.Lockstep l.Placed identifier identifier := by
  refine (Lockstep.expect .word).bind fun t t' ⟨ht, hkind⟩ ↦ ?_
  rw [l.text ht hkind]
  cases Identifier.parse t.text with
  | ok id => exact .pure ⟨rfl, l.place ht⟩
  | error _ => exact .fail rfl (l.place ht)

private theorem map_fst_eq {as as' : List (α × Span)} (h : List.Forall₂ l.Placed as as') :
    as'.map Prod.fst = as.map Prod.fst := by
  induction h with
  | nil => rfl
  | cons ha _ ih => rw [List.map_cons, List.map_cons, ha.1, ih]

private theorem rel_getLast? {P : α → α → Prop} {as as' : List α} (h : List.Forall₂ P as as') :
    Option.Rel P as.getLast? as'.getLast? := by
  induction h with
  | nil => exact .none
  | @cons a a' as as' ha h ih =>
    cases h with
    | nil => exact .some ha
    | cons => simpa only [List.getLast?_cons_cons] using ih

/-- Names are read in lockstep, each with its place. -/
theorem lockstep_name : l.Lockstep l.Placed name name := by
  refine lockstep_identifier.bind_placed fun first start start' hstart ↦ ?_
  refine (Lockstep.repeated (lockstep_identifier.afterMark .doubleColon)).bind fun more more' h ↦ ?_
  have hids := map_fst_eq h
  have hlast := rel_getLast? h
  refine .pure ⟨?_, ?_⟩
  · simp only [hids]
    generalize more.getLast? = a, more'.getLast? = a' at hlast
    cases hlast with
    | none => rfl
    | some ha => simp only [Option.map_some, ha.1]
  · generalize more.getLast? = a, more'.getLast? = a' at hlast
    cases hlast with
    | none => exact l.through hstart hstart
    | some ha => exact l.through hstart ha.2

private theorem lockstep_annotationValue : l.Lockstep Eq annotationValue annotationValue := by
  refine (Lockstep.eat .leftParen).bind_eq fun b ↦ ?_
  refine .ite .rfl (fun _ ↦ ?_) fun _ ↦ .pure rfl
  refine (Lockstep.expect .literal).bind fun t t' ht ↦ ?_
  exact (Lockstep.expect _).bind fun _ _ _ ↦ .pure (l.value ht.1).symm

private theorem lockstep_annotationsUpTo (n : Nat) (earlier : Annotations) :
    l.Lockstep Eq (annotationsUpTo n earlier) (annotationsUpTo n earlier) := by
  induction n generalizing earlier with
  | zero => exact .pure rfl
  | succ n ih =>
    refine (Lockstep.eat .at).bind_eq fun b ↦ ?_
    refine .ite .rfl (fun _ ↦ ?_) fun _ ↦ .pure rfl
    refine lockstep_identifier.bind_placed fun key span span' hspan ↦ ?_
    refine lockstep_annotationValue.bind_eq fun value ↦ ?_
    exact .ite .rfl (fun _ ↦ .fail rfl hspan) fun _ ↦ ih _

/-- Annotations are read in lockstep. -/
theorem lockstep_annotations : l.Lockstep Eq annotations annotations :=
  .withSteps fun n ↦ lockstep_annotationsUpTo n ∅

/-! ### Types -/

private theorem lockstep_attributeKey : l.Lockstep l.Placed attributeKey attributeKey := by
  refine Lockstep.next.bind fun t t' ht ↦ ?_
  rw [l.kind ht]
  split
  · next hkind =>
    rw [l.text ht hkind]
    exact .ite .rfl (fun _ ↦ .fail rfl (l.place ht)) fun _ ↦ .pure ⟨l.value ht, l.place ht⟩
  · exact .pure ⟨l.value ht, l.place ht⟩
  · exact .unexpected ht

private theorem lockstep_attributesUpTo {type type' : Reader (TypeExpr TypeRef)}
    (h : l.Lockstep Eq type type') (n : Nat) (earlier : Table String (Attribute TypeRef)) :
    l.Lockstep Eq (attributesUpTo type n earlier) (attributesUpTo type' n earlier) := by
  induction n generalizing earlier with
  | zero => exact .pure rfl
  | succ n ih =>
    refine Lockstep.peek.bind fun t t' ht ↦ ?_
    refine .ite (Lockstep.kind_iff ht) (fun _ ↦ .pure rfl) fun _ ↦ ?_
    refine lockstep_annotations.bind_eq fun notes ↦ ?_
    refine lockstep_attributeKey.bind_placed fun key span span' hspan ↦ ?_
    refine (Lockstep.eat .question).bind_eq fun optional ↦ ?_
    refine (Lockstep.expect _).bind fun _ _ _ ↦ h.bind_eq fun value ↦ ?_
    refine .ite .rfl (fun _ ↦ .fail rfl hspan) fun _ ↦ ?_
    refine (Lockstep.eat .comma).bind_eq fun comma ↦ ?_
    exact .ite .rfl (fun _ ↦ ih _) fun _ ↦ .pure rfl

private theorem lockstep_recordLevel {inner? inner?' : Option (Reader (TypeExpr TypeRef))}
    (h : Option.Rel (l.Lockstep Eq) inner? inner?') :
    l.Lockstep Eq (recordLevel inner?) (recordLevel inner?') := by
  refine (Lockstep.expect _).bind fun brace brace' hbrace ↦ ?_
  cases h with
  | none => exact .fail rfl (l.place hbrace.1)
  | some h =>
    refine (Lockstep.withinStack (l.place hbrace.1)).bind_eq fun _ ↦ ?_
    refine (Lockstep.withSteps fun n ↦ lockstep_attributesUpTo h n ∅).bind_eq fun fields ↦ ?_
    exact (Lockstep.expect _).bind fun _ _ _ ↦ .pure rfl

private theorem lockstep_setLevel {inner? inner?' : Option (Reader (TypeExpr TypeRef))}
    (h : Option.Rel (l.Lockstep Eq) inner? inner?') :
    l.Lockstep Eq (setLevel inner?) (setLevel inner?') := by
  refine Lockstep.next.bind fun word word' hword ↦ Lockstep.next.bind fun _ _ _ ↦ ?_
  cases h with
  | none => exact .fail rfl (l.place hword)
  | some h =>
    refine (Lockstep.withinStack (l.place hword)).bind_eq fun _ ↦ h.bind_eq fun element ↦ ?_
    exact (Lockstep.expect _).bind fun _ _ _ ↦ .pure rfl

private theorem rel_typeOfName (n : Name) {span span' : Span} (h : l.span span span') :
    Except.Rel l.Failing Eq (typeOfName n span) (typeOfName n span') := by
  unfold typeOfName
  split
  · exact .ok rfl
  · split
    · exact .ok rfl
    · split
      · exact .ok rfl
      · split
        · exact .ok rfl
        · exact .error ⟨rfl, h⟩

private theorem lockstep_namedType : l.Lockstep Eq namedType namedType := by
  refine lockstep_name.bind_placed fun n span span' hspan ↦ ?_
  have htype := rel_typeOfName n hspan
  dsimp only
  generalize typeOfName n span = r, typeOfName n span' = r' at htype
  cases htype with
  | error h => exact .fail h.1 h.2
  | ok h => exact .pure (congrArg TypeExpr.leaf h)

section

variable {around around' : Surroundings} {ts ts' : List Token}

private theorem outcomes_opensSet (hend : l.Alongside around around')
    (hts : List.Forall₂ l.token ts ts') {t t' : Token} (hpeek : Reader.peek around ts = .ok (t, ts))
    (hpeek' : Reader.peek around' ts' = .ok (t', ts')) (htext : t'.text = t.text) :
    l.Outcomes Eq ts ts' (opensSet around ts) (opensSet around' ts') := by
  rw [opensSet, Reader.bind_of_ok hpeek, Reader.bind_of_ok hpeek', htext]
  refine Lockstep.ite .rfl (fun _ ↦ ?_) (fun _ ↦ .pure rfl) hend hts
  refine Lockstep.peekSecond.bind fun second second' hsecond ↦ ?_
  rw [l.kind hsecond]
  exact .pure rfl

private theorem exists_of_peek (hend : l.Alongside around around')
    (hts : List.Forall₂ l.token ts ts') :
    (∃ f f', Reader.peek around ts = .error f ∧ Reader.peek around' ts' = .error f' ∧
        l.Failing f f') ∨
      ∃ t t', Reader.peek around ts = .ok (t, ts) ∧ Reader.peek around' ts' = .ok (t', ts') ∧
        l.token t t' := by
  obtain ⟨ending, _⟩ := around
  obtain ⟨ending', _⟩ := around'
  obtain ⟨hend, -⟩ := hend
  cases hts with
  | nil =>
    cases hend with
    | error h => exact .inl ⟨_, _, rfl, rfl, h⟩
    | ok h => exact .inr ⟨_, _, rfl, rfl, h⟩
  | cons ht _ => exact .inr ⟨_, _, rfl, rfl, ht⟩

end

private theorem lockstep_typeLevel {inner? inner?' : Option (Reader (TypeExpr TypeRef))}
    (h : Option.Rel (l.Lockstep Eq) inner? inner?') :
    l.Lockstep Eq (typeLevel inner?) (typeLevel inner?') := by
  intro around around' ts ts' hend hts
  -- The next token is looked at before any reader takes it. Binding it would lose that it stays.
  rcases exists_of_peek hend hts with ⟨f, f', hpeek, hpeek', hf⟩ | ⟨t, t', hpeek, hpeek', ht⟩
  · have hfail {g : Token → Reader (TypeExpr TypeRef)} :
        (Reader.peek >>= g) around ts = .error f := by
      change Reader.bind Reader.peek g around ts = _
      rw [Reader.bind, hpeek]
    have hfail' {g : Token → Reader (TypeExpr TypeRef)} :
        (Reader.peek >>= g) around' ts' = .error f' := by
      change Reader.bind Reader.peek g around' ts' = _
      rw [Reader.bind, hpeek']
    rw [typeLevel, typeLevel, hfail, hfail']
    exact .error hf
  · rw [typeLevel, typeLevel, Reader.bind_of_ok hpeek, Reader.bind_of_ok hpeek', l.kind ht]
    have hother : l.Lockstep (Eq : TypeExpr TypeRef → TypeExpr TypeRef → Prop)
        (do let t ← Reader.next; Reader.unexpected t .typeExpr)
        (do let t ← Reader.next; Reader.unexpected t .typeExpr) :=
      Lockstep.next.bind fun _ _ ht ↦ .unexpected ht
    cases hkind : t.kind with
    | word =>
      refine Lockstep.bind_at hend hts
        (outcomes_opensSet hend hts hpeek hpeek' (l.text ht hkind)) ?_
      rintro b _ rfl
      exact .ite .rfl (fun _ ↦ lockstep_setLevel h) fun _ ↦ lockstep_namedType
    | mark m =>
      cases m with
      | leftBrace =>
        refine (lockstep_recordLevel h).bind ?_ hend hts
        rintro r _ rfl
        exact .pure rfl
      | _ => exact hother hend hts
    | _ => exact hother hend hts

/-- Types are read in lockstep, whatever room there is for nesting. -/
theorem lockstep_typeUpTo (room : Nat) : l.Lockstep Eq (typeUpTo room) (typeUpTo room) := by
  induction room with
  | zero => exact lockstep_typeLevel .none
  | succ room ih => exact lockstep_typeLevel (.some ih)

private theorem lockstep_recordType : l.Lockstep Eq recordType recordType :=
  lockstep_recordLevel (.some (lockstep_typeUpTo _))

/-! ### Parts of declarations -/

/-- Lists of equal values are equal. -/
theorem lockstep_eq {p : Reader (List α)} (h : l.Lockstep (List.Forall₂ Eq) p p) :
    l.Lockstep Eq p p := by
  intro around around' ts ts' hend hts
  have hp := h hend hts
  generalize p around ts = r, p around' ts' = r' at hp
  cases hp with
  | error h => exact .error h
  | ok h => exact .ok ⟨by simpa [List.forall₂_eq_eq_eq] using h.1, h.2⟩

/-- References to entity types are read in lockstep. -/
theorem lockstep_entityRefs : l.Lockstep Eq entityRefs entityRefs := by
  refine lockstep_eq (.oneOrBracketed (lockstep_name.bind ?_))
  rintro ⟨n, span⟩ ⟨_, span'⟩ ⟨rfl, -⟩
  exact .pure rfl

/-- The optional part behind `in` is read in lockstep. -/
theorem lockstep_optionalIn {refs : Reader (List α)} (h : l.Lockstep Eq refs refs) :
    l.Lockstep Eq (optionalIn refs) (optionalIn refs) :=
  Lockstep.peek.bind fun _ _ ht ↦
    .ite (Lockstep.isWord_iff ht) (fun _ ↦ Lockstep.next.bind fun _ _ _ ↦ h) fun _ ↦ .pure rfl

/-- The optional shape of an entity type is read in lockstep. -/
theorem lockstep_optionalShape : l.Lockstep Eq optionalShape optionalShape := by
  have hshape : l.Lockstep Eq (do let shape ← recordType; pure (some shape))
      (do let shape ← recordType; pure (some shape)) := by
    refine lockstep_recordType.bind_eq fun shape ↦ ?_
    exact .pure rfl
  refine (Lockstep.eat .equals).bind_eq fun b ↦ ?_
  refine .ite .rfl (fun _ ↦ hshape) fun _ ↦ Lockstep.peek.bind fun t t' ht ↦ ?_
  exact .ite (Lockstep.kind_iff ht) (fun _ ↦ hshape) fun _ ↦ .pure rfl

/-- The optional tags of an entity type are read in lockstep. -/
theorem lockstep_optionalTags : l.Lockstep Eq optionalTags optionalTags := by
  refine Lockstep.peek.bind fun t t' ht ↦ ?_
  refine .ite (Lockstep.isWord_iff ht) (fun _ ↦ Lockstep.next.bind fun _ _ _ ↦ ?_)
    fun _ ↦ .pure rfl
  refine (lockstep_typeUpTo _).bind_eq fun type ↦ ?_
  exact .pure rfl

/-- The values of an enumerated entity type are read in lockstep. -/
theorem lockstep_enumValuesUpTo (n : Nat) (earlier : List String) :
    l.Lockstep Eq (enumValuesUpTo n earlier) (enumValuesUpTo n earlier) := by
  induction n generalizing earlier with
  | zero => exact .pure rfl
  | succ n ih =>
    refine (Lockstep.eat .comma).bind_eq fun b ↦ ?_
    refine .ite .rfl (fun _ ↦ ?_) fun _ ↦ .pure rfl
    refine (Lockstep.expect .literal).bind fun t t' ht ↦ ?_
    rw [l.value ht.1]
    exact .ite .rfl (fun _ ↦ .fail rfl (l.place ht.1)) fun _ ↦ ih _

/-- Names of actions are read in lockstep, each with its place. -/
theorem lockstep_actionName : l.Lockstep l.Placed actionName actionName := by
  refine Lockstep.next.bind fun t t' ht ↦ ?_
  rw [l.kind ht]
  split
  · exact .pure ⟨l.value ht, l.place ht⟩
  · next hkind =>
    rw [l.text ht hkind]
    exact .ite .rfl (fun _ ↦ .fail rfl (l.place ht)) fun _ ↦ .pure ⟨l.value ht, l.place ht⟩
  · exact .unexpected ht

private theorem lockstep_actionRefUpTo (n : Nat) (ids : List Identifier) :
    l.Lockstep Eq (actionRefUpTo n ids) (actionRefUpTo n ids) := by
  induction n generalizing ids with
  | zero => exact Lockstep.next.bind fun _ _ ht ↦ .unexpected ht
  | succ n ih =>
    refine (Lockstep.expect _).bind fun _ _ _ ↦ Lockstep.peek.bind fun t t' ht ↦ ?_
    refine .ite (Lockstep.kind_iff ht) (fun _ ↦ ?_) fun _ ↦ ?_
    · refine Lockstep.next.bind fun t t' ht ↦ ?_
      rw [l.value ht]
      exact .pure rfl
    · refine lockstep_identifier.bind_placed fun id _ _ _ ↦ ?_
      refine Lockstep.peek.bind fun t t' ht ↦ ?_
      exact .ite (Lockstep.kind_iff ht) (fun _ ↦ ih _) fun _ ↦
        Lockstep.next.bind fun _ _ ht ↦ .unexpected ht

/-- References to actions are read in lockstep. -/
theorem lockstep_actionRef : l.Lockstep Eq actionRef actionRef := by
  refine Lockstep.peek.bind fun t t' ht ↦ ?_
  refine .ite (Lockstep.kind_iff ht) (fun _ ↦ ?_) fun _ ↦ ?_
  · refine Lockstep.next.bind fun t t' ht ↦ ?_
    rw [l.value ht]
    exact .pure rfl
  · refine lockstep_identifier.bind_placed fun first _ _ _ ↦ ?_
    refine Lockstep.peek.bind fun t t' ht ↦ ?_
    exact .ite (Lockstep.kind_iff ht) (fun _ ↦ .withSteps fun n ↦ lockstep_actionRefUpTo n _)
      fun _ ↦ .pure rfl

private theorem lockstep_entryValue (earlier : Entries) (key : EntryKey) :
    l.Lockstep Eq (entryValue earlier key) (entryValue earlier key) := by
  cases key with
  | principal =>
    refine lockstep_entityRefs.bind_eq fun names ↦ ?_
    exact .pure rfl
  | resource =>
    refine lockstep_entityRefs.bind_eq fun names ↦ ?_
    exact .pure rfl
  | context =>
    refine (lockstep_typeUpTo _).bind_eq fun type ↦ ?_
    exact .pure rfl

private theorem lockstep_entriesUpTo (n : Nat) (earlier : Entries) :
    l.Lockstep Eq (entriesUpTo n earlier) (entriesUpTo n earlier) := by
  induction n generalizing earlier with
  | zero => exact .pure rfl
  | succ n ih =>
    refine Lockstep.peek.bind fun t t' ht ↦ ?_
    refine .ite (Lockstep.kind_iff ht) (fun _ ↦ .pure rfl) fun _ ↦ ?_
    refine (Lockstep.expect .word).bind fun word word' ⟨hword, hkind⟩ ↦ ?_
    rw [l.text hword hkind]
    split
    · exact .unexpected hword
    · refine .ite .rfl (fun _ ↦ .fail rfl (l.place hword)) fun _ ↦ ?_
      refine (Lockstep.expect _).bind fun _ _ _ ↦ (lockstep_entryValue _ _).bind_eq fun all ↦ ?_
      refine (Lockstep.eat .comma).bind_eq fun comma ↦ ?_
      exact .ite .rfl (fun _ ↦ ih _) fun _ ↦ .pure rfl

/-- The optional application of an action is read in lockstep. -/
theorem lockstep_optionalAppliesTo : l.Lockstep Eq optionalAppliesTo optionalAppliesTo := by
  refine Lockstep.peek.bind fun t t' ht ↦ ?_
  refine .ite (Lockstep.isWord_iff ht) (fun _ ↦ Lockstep.next.bind fun _ _ _ ↦ ?_)
    fun _ ↦ .pure rfl
  refine Lockstep.bind (V := Eq) ?_ ?_
  · refine (Lockstep.expect _).bind fun _ _ _ ↦
      (Lockstep.withSteps fun n ↦ lockstep_entriesUpTo n {}).bind_eq fun entries ↦ ?_
    exact (Lockstep.expect _).bind fun _ _ _ ↦ .pure rfl
  · rintro block _ rfl
    exact .pure rfl

end PolicySchema.Text.Likeness
