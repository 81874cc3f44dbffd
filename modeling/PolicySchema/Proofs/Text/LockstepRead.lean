import PolicySchema.Text.Read
import PolicySchema.Proofs.Text.Assembly
import PolicySchema.Proofs.Text.LockstepBlocks
import PolicySchema.Proofs.Text.Scanning

/-!
# Reading in lockstep

Items that state the same assemble to schemas that are equal but for places, or clash in the same
way. So layout and the spelling of literals carry no meaning: texts with the same tokens are read as
the same schema or fail for the same kind of reason (`read_of_sameTokens`).
-/

namespace PolicySchema.Text

variable {ss : List Statement} {source source' : Source} {a a' : Assembly}

/-! ### Items that repeat earlier ones -/

/-- The kind of fault that it is when a statement introduces what a schema declares already. -/
def Statement.clash (s : Schema) : Statement → Fault
  | .block .. => .duplicate .namespaceBlock
  | .commonType .. => .duplicate .commonType
  | .entityType ns key body _ =>
    match s.entityType? ns key with
    | some earlier =>
      if earlier.body.isEnumerated = body.isEnumerated then .duplicate .entityType
      else .enumConflict
    | none => .duplicate .entityType
  | .action .. => .duplicate .action

/-- An item that is not added clashes, at its stretch. -/
theorem Assembly.add_eq_error {item : Item} {f : Failure} (h : a.add source item = .error f) :
    f.cause.fault = item.statement.clash a.schema ∧ f.span = item.span := by
  cases item with
  | block n notes span =>
    rw [add] at h
    split at h <;> cases h
    exact ⟨rfl, rfl⟩
  | commonType d =>
    rw [add] at h
    split at h <;> cases h
    exact ⟨rfl, rfl⟩
  | entityType d =>
    have hfind : a.schema.entityType? d.ns d.key =
        (a.declarations d.ns).entityTypes.find? d.key := Schema.entityType?_eq ..
    rw [add, ← hfind] at h
    rw [Item.statement, Statement.clash]
    cases hearlier : a.schema.entityType? d.ns d.key with
    | none =>
      rw [hearlier] at h
      cases h
    | some earlier =>
      rw [hearlier] at h
      by_cases hsame : earlier.body.isEnumerated = d.body.isEnumerated
      · simp only [if_pos hsame] at h ⊢
        cases h
        exact ⟨rfl, rfl⟩
      · simp only [if_neg hsame] at h ⊢
        cases h
        exact ⟨rfl, rfl⟩
  | action d =>
    rw [add] at h
    split at h <;> cases h
    exact ⟨rfl, rfl⟩

private theorem rel_entityType? {s s' : Schema} (h : s.Holds ss) (h' : s'.Holds ss)
    (ns : Option Name) (key : Identifier) :
    Option.Rel (fun e e' ↦ e'.body = e.body) (s.entityType? ns key) (s'.entityType? ns key) := by
  refine rel_of_exists (fun e he ↦ ?_) fun e' he' ↦ ?_
  · have hmem := (h.entityTypes ns key e.body e.annotations).mp ⟨e.location, he⟩
    obtain ⟨place, hplace⟩ := (h'.entityTypes ns key _ _).mpr hmem
    exact ⟨_, hplace, rfl⟩
  · have hmem := (h'.entityTypes ns key e'.body e'.annotations).mp ⟨e'.location, he'⟩
    obtain ⟨place, hplace⟩ := (h.entityTypes ns key _ _).mpr hmem
    exact ⟨_, hplace⟩

private theorem clash_eq {s s' : Schema} (h : s.Holds ss) (h' : s'.Holds ss) (st : Statement) :
    st.clash s' = st.clash s := by
  cases st with
  | entityType ns key body notes =>
    have hrel := rel_entityType? h h' ns key
    rw [Statement.clash, Statement.clash]
    generalize s.entityType? ns key = e, s'.entityType? ns key = e' at hrel
    cases hrel with
    | none => rfl
    | some hbody => simp only [hbody]
  | _ => rfl

namespace Likeness

variable {l : Likeness}

/-! ### Assembling -/

/-- An item is added to both or to none of two assemblies of the same statements. -/
theorem lockstep_add (source source' : Source) (h : a.Holds ss) (h' : a'.Holds ss)
    {item item' : Item} (hitem : l.SameItem item item') :
    Except.Rel l.Failing
      (fun b b' ↦ b.Holds (ss ++ [item.statement]) ∧ b'.Holds (ss ++ [item.statement]))
      (a.add source item) (a'.add source' item') := by
  obtain ⟨hstatement, hspan⟩ := hitem
  obtain ⟨hold, hnew⟩ := h.add source item
  obtain ⟨hold', hnew'⟩ := h'.add source' item'
  rw [hstatement] at hold' hnew'
  -- Both assemblies hold the same statements, so the item is new to both or repeats one in both.
  by_cases hm : item.statement.introduced ∈ ss.map Statement.introduced
  · obtain ⟨f, hf⟩ := hold hm
    obtain ⟨f', hf'⟩ := hold' hm
    obtain ⟨hfault, hplace⟩ := Assembly.add_eq_error hf
    obtain ⟨hfault', hplace'⟩ := Assembly.add_eq_error hf'
    rw [hf, hf']
    refine .error ⟨?_, ?_⟩
    · rw [hfault, hfault', hstatement, clash_eq h.schema h'.schema]
    · rwa [hplace, hplace']
  · obtain ⟨b, hb, hholds⟩ := hnew hm
    obtain ⟨b', hb', hholds'⟩ := hnew' hm
    rw [hb, hb']
    exact .ok ⟨hholds, hholds'⟩

/-- Items that state the same are all added to both or clash at the same one. -/
theorem lockstep_addAll (source source' : Source) {items items' : List Item}
    (hitems : List.Forall₂ l.SameItem items items') :
    ∀ {ss : List Statement} {a a' : Assembly}, a.Holds ss → a'.Holds ss →
      Except.Rel l.Failing (fun b b' ↦ ∃ all, b.Holds all ∧ b'.Holds all)
        (a.addAll source items) (a'.addAll source' items') := by
  induction hitems with
  | nil => exact fun h h' ↦ .ok ⟨_, h, h'⟩
  | @cons item item' items items' hitem _ ih =>
    intro ss a a' h h'
    have hadd := lockstep_add source source' h h' hitem
    rw [Assembly.addAll, Assembly.addAll]
    generalize a.add source item = r, a'.add source' item' = r' at hadd
    cases hadd with
    | error hf => exact .error hf
    | ok hb => exact ih hb.1 hb.2

/-- Items that state the same assemble to schemas that are equal but for places. -/
theorem lockstep_assemble (source source' : Source) {items items' : List Item}
    (hitems : List.Forall₂ l.SameItem items items') :
    Except.Rel l.Failing (fun s s' ↦ s.agrees s' = true) (assemble source items)
      (assemble source' items') := by
  have hall := lockstep_addAll source source' hitems
    Assembly.holds_empty Assembly.holds_empty
  rw [assemble, assemble]
  generalize Assembly.empty.addAll source items = r, Assembly.empty.addAll source' items' = r'
    at hall
  cases hall with
  | error hf => exact .error hf
  | ok hb =>
    obtain ⟨all, h, h'⟩ := hb
    exact .ok (h.schema.agrees h'.schema)

/-! ### Reading -/

/-- Corresponding texts are read as schemas that are equal but for places, or they fail for the same
kind of reason at corresponding stretches. -/
theorem lockstep_readUnder {exhausted exhausted' : StackMap}
    (hend : l.Alongside ⟨(scan source.text).ending, exhausted⟩
      ⟨(scan source'.text).ending, exhausted'⟩)
    (hts : List.Forall₂ l.token (scan source.text).tokens (scan source'.text).tokens) :
    Except.Rel
      (fun e e' ↦ e'.cause.fault = e.cause.fault ∧ l.span e.location.span e'.location.span)
      (fun s s' ↦ s.agrees s' = true) (readUnder exhausted source)
      (readUnder exhausted' source') := by
  obtain ⟨hitems, houtcome⟩ := lockstep_itemsOf hend hts
  have hasm := lockstep_assemble source source' hitems
  rw [readUnder, readUnder]
  generalize assemble source _ = r, assemble source' _ = r' at hasm
  cases hasm with
  | error hf => exact .error hf
  | ok hs =>
    generalize (itemsOf exhausted (scan source.text)).outcome = o,
      (itemsOf exhausted' (scan source'.text)).outcome = o' at houtcome
    cases houtcome with
    | error hf => exact .error hf
    | ok _ => exact .ok hs

/-- Stretches over the same tokens of two texts. -/
inductive SameStretch (ts ts' : List Token) : Span → Span → Prop where
  | token {t t'} : (t, t') ∈ ts.zip ts' → SameStretch ts ts' t.span t'.span
  | through {a a' b b'} : SameStretch ts ts' a a' → SameStretch ts ts' b b' →
      SameStretch ts ts' (a.through b) (a'.through b')

/-- Tokens of one kind and value, however literals are written, and stretches over them. -/
def respelling (ts ts' : List Token) : Likeness where
  token t t' := (t, t') ∈ ts.zip ts' ∧ t'.kind = t.kind ∧ t'.value = t.value ∧
    (t.kind = .word → t'.text = t.text)
  span := SameStretch ts ts'
  kind h := h.2.1
  value h := h.2.2.1
  text h := h.2.2.2
  place h := .token h.1
  through := .through

end Likeness

private theorem text_eq_value {t : Token} (h : Shows t t.symbol) (hkind : t.kind = .word) :
    t.text = t.value := by
  obtain ⟨kind, text, value, start⟩ := t
  subst hkind
  cases h
  rfl

private theorem kind_of_ending {text : String} {eof : Token} (h : (scan text).ending = .ok eof) :
    eof.kind = .endOfInput :=
  (scan_ends text .ample eof h).kind_endOfInput_iff.mpr rfl

/-- Layout and the spelling of literals carry no meaning: two texts that scan to the end to tokens
of the same kinds and values are read as schemas that are equal but for places, or neither can be
read, for the same kind of reason. The stack is exhausted at the same tokens of both, if it is. -/
theorem read_of_sameTokens {a b : Source} {eof eof' : Token} {exhausted exhausted' : StackMap}
    (ha : (scan a.text).ending = .ok eof) (hb : (scan b.text).ending = .ok eof')
    (h : List.Forall₂ (fun t t' ↦ t'.kind = t.kind ∧ t'.value = t.value)
      (scan a.text).tokens (scan b.text).tokens)
    (hstack : ∀ {span span'}, Likeness.SameStretch ((scan a.text).tokens ++ [eof])
      ((scan b.text).tokens ++ [eof']) span span' → exhausted' span' = exhausted span) :
    Except.Rel (fun e e' ↦ e'.cause.fault = e.cause.fault) (fun s s' ↦ s.agrees s' = true)
      (readUnder exhausted a) (readUnder exhausted' b) := by
  let l := Likeness.respelling ((scan a.text).tokens ++ [eof]) ((scan b.text).tokens ++ [eof'])
  have hzip : ((scan a.text).tokens ++ [eof]).zip ((scan b.text).tokens ++ [eof']) =
      (scan a.text).tokens.zip (scan b.text).tokens ++ [(eof, eof')] :=
    List.zip_append h.length_eq
  have hend : l.Alongside ⟨(scan a.text).ending, exhausted⟩ ⟨(scan b.text).ending, exhausted'⟩ := by
    refine ⟨?_, hstack⟩
    rw [ha, hb]
    refine .ok ⟨?_, ?_, ?_, ?_⟩
    · rw [hzip]
      exact List.mem_append_right _ List.mem_cons_self
    · rw [kind_of_ending ha, kind_of_ending hb]
    · rw [value_of_ending ha, value_of_ending hb]
    · intro hkind
      rw [kind_of_ending ha] at hkind
      cases hkind
  have hts : List.Forall₂ l.token (scan a.text).tokens (scan b.text).tokens := by
    refine List.forall₂_iff_zip.mpr ⟨h.length_eq, fun {t t'} hmem ↦ ?_⟩
    obtain ⟨hkind, hvalue⟩ := (List.forall₂_iff_zip.mp h).2 hmem
    obtain ⟨ht, ht'⟩ := List.of_mem_zip hmem
    refine ⟨hzip ▸ List.mem_append_left _ hmem, hkind, hvalue, fun hword ↦ ?_⟩
    rw [text_eq_value (shows_of_mem_scan ht) hword,
      text_eq_value (shows_of_mem_scan ht') (hkind.trans hword), hvalue]
  have hread := Likeness.lockstep_readUnder hend hts
  generalize readUnder exhausted a = r, readUnder exhausted' b = r' at hread ⊢
  cases hread with
  | error he => exact .error he.1
  | ok hs => exact .ok hs

/-- An action is read alike with a comment before it and its name written as an escape. -/
theorem read_respelled_action :
    (scan "action \"a\";").tokens.length = 3 ∧
    Except.Rel (fun e e' ↦ e'.cause.fault = e.cause.fault) (fun s s' ↦ s.agrees s' = true)
      (read ⟨"", "action \"a\";"⟩) (read ⟨"", "// named\naction\t\"\\x61\" ;"⟩) := by
  have ha : scan "action \"a\";" = ⟨[⟨.word, "action", "action", ⟨0, 1, 1⟩⟩,
      ⟨.literal, "\"a\"", "a", ⟨7, 1, 8⟩⟩, ⟨.mark .semicolon, ";", ";", ⟨10, 1, 11⟩⟩],
      .ok ⟨.endOfInput, "", "", ⟨11, 1, 12⟩⟩⟩ := by rfl
  have hb : scan "// named\naction\t\"\\x61\" ;" = ⟨[⟨.word, "action", "action", ⟨9, 2, 1⟩⟩,
      ⟨.literal, "\"\\x61\"", "a", ⟨16, 2, 8⟩⟩, ⟨.mark .semicolon, ";", ";", ⟨23, 2, 15⟩⟩],
      .ok ⟨.endOfInput, "", "", ⟨24, 2, 16⟩⟩⟩ := by rfl
  refine ⟨congrArg (fun s ↦ s.tokens.length) ha, ?_⟩
  refine read_of_sameTokens (congrArg Scanned.ending ha) (congrArg Scanned.ending hb) ?_
    fun _ ↦ rfl
  rw [congrArg Scanned.tokens ha, congrArg Scanned.tokens hb]
  exact .cons ⟨rfl, rfl⟩ (.cons ⟨rfl, rfl⟩ (.cons ⟨rfl, rfl⟩ .nil))

end PolicySchema.Text
