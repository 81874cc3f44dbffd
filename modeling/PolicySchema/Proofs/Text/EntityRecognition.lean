import PolicySchema.Proofs.Text.TypeRecognition

/-!
# Reading declarations of types

Declarations of entity types and common types are recognized by their readers. What a reader gives
are items, which state the same as the declaration but for the stretches of the names
(`Item.statement`).
-/

namespace PolicySchema.Text

/-- What an item states. -/
def Item.statement : Item → Statement
  | .block n notes _ => .block n notes
  | .commonType d => .commonType d.ns d.key d.body d.annotations
  | .entityType d => .entityType d.ns d.key d.body d.annotations
  | .action d => .action d.ns d.key d.body d.annotations

namespace Grammar

open Reader Syntax

variable {around : Surroundings} {ts rest : List Token} {u left : List Symbol}

/-! ### Optional parts -/

/-- Before parents stands what stands before the rest, or their word. -/
theorem isParents_front_ne {α : Type} {P : α → List Symbol → Prop} {as : List α}
    {w v : List Symbol} {x : Symbol} (h : IsParents P as w) (hin : x ≠ .word "in")
    (hv : front v ≠ x) : front (w ++ v) ≠ x := by
  cases h with
  | none => exact hv
  | listed => exact hin.symm

/-- Before a shape stands what stands before the rest, or how a shape begins. -/
theorem isShape_front_ne {shape : Option (RecordType TypeRef)} {w v : List Symbol}
    {x : Symbol} (h : IsShape shape w) (heq : x ≠ .mark .equals) (hbrace : x ≠ .mark .leftBrace)
    (hv : front v ≠ x) : front (w ++ v) ≠ x := by
  cases h with
  | none => exact hv
  | bare hrec =>
    rw [isRecord_front hrec]
    exact hbrace.symm
  | equals => exact heq.symm

/-- Before tags stands what stands before the rest, or their word. -/
theorem isTags_front_ne {tags : Option (TypeExpr TypeRef)} {w v : List Symbol}
    {x : Symbol} (h : IsTags tags w) (htags : x ≠ .word "tags") (hv : front v ≠ x) :
    front (w ++ v) ≠ x := by
  cases h with
  | none => exact hv
  | some => exact htags.symm

/-- References to entity types are recognized. -/
theorem entityRefs_recognizes : Recognizes entityRefs id (Listed IsPath)
    (· ≠ .mark .doubleColon) := by
  have hname : Recognizes (name >>= fun n ↦ pure n.1) id IsPath (· ≠ .mark .doubleColon) := by
    constructor
    · intro around ts b rest u hend hs h
      rw [bind_eq_ok] at h
      obtain ⟨n, mid, hn, h⟩ := h
      obtain ⟨rfl, rfl⟩ := pure_eq_ok.mp h
      exact name_recognizes.sound hend hs hn
    · intro eof ts n w left hend hs hpath hf
      obtain ⟨b, rest, hn, rfl, hrest⟩ := name_recognizes.complete hend hs hpath hf
      exact ⟨b.1, rest, bind_of_ok hn, rfl, hrest⟩
  have hrefs := hname.oneOrBracketed (by decide) (by decide) (fun n w hpath ↦ by
    obtain ⟨first, v, rfl, _⟩ := isPath_symbols hpath
    exact ⟨_, v, rfl, by simp, by simp⟩)
  rw [List.map_id_fun] at hrefs
  exact hrefs

/-- Parents are recognized as lists of references are. -/
theorem optionalIn_recognizes {α : Type} {refs : Reader (List α)} {P : α → List Symbol → Prop}
    {follow : Symbol → Prop} (hp : Recognizes refs id (Listed P) follow) :
    Recognizes (optionalIn refs) id (IsParents P) (fun s ↦ s ≠ .word "in" ∧ follow s) where
  sound := by
    intro around ts b rest u hend hs h
    rw [optionalIn] at h
    rcases ifWord_shows hend hs h with ⟨ts₁, u, rfl, hs₁, h⟩ | h
    · obtain ⟨used, left, rfl, hrest, hlist⟩ := hp.sound hend hs₁ h
      exact ⟨_, left, rfl, hrest, .listed hlist⟩
    · obtain ⟨rfl, rfl⟩ := pure_eq_ok.mp h
      exact ⟨[], u, rfl, hs, .none⟩
  complete := by
    rintro eof ts as w left hend hs hparents ⟨hin, hf⟩
    cases hparents with
    | none => exact ⟨[], ts, ifWord_other hend hs hin, rfl, hs⟩
    | listed hlist =>
      obtain ⟨ts₁, hs₁, hclause⟩ := ifWord_of_spells (.ended eof) hs
      obtain ⟨b, rest, hrefs, rfl, hrest⟩ := hp.complete hend hs₁ hlist hf
      exact ⟨b, rest, hclause.trans hrefs, rfl, hrest⟩

/-- Shapes are recognized. -/
theorem optionalShape_recognizes : Recognizes optionalShape id IsShape
    (fun s ↦ s ≠ .mark .equals ∧ s ≠ .mark .leftBrace) where
  sound := by
    intro around ts b rest u hend hs h
    rw [optionalShape, bind_eq_ok] at h
    obtain ⟨found, ts₁, he, h⟩ := h
    rcases eat_shows hend hs he with ⟨rfl, u, rfl, hs₁⟩ | ⟨rfl, rfl, _⟩
    · rw [if_pos rfl, bind_eq_ok] at h
      obtain ⟨⟨fields, notes⟩, ts₂, hr, h⟩ := h
      obtain ⟨rfl, rfl⟩ := pure_eq_ok.mp h
      obtain ⟨used, left, rfl, hrest, hrec, hnotes, hdepth⟩ :=
        recordType_recognizes.sound hend hs₁ hr
      obtain rfl : notes = ∅ := hnotes
      exact ⟨_, left, rfl, hrest, .equals hrec hdepth⟩
    · rw [if_neg Bool.false_ne_true] at h
      rcases ifMark_shows hend hs h with ⟨-, h⟩ | ⟨-, h⟩
      · rw [bind_eq_ok] at h
        obtain ⟨⟨fields, notes⟩, ts₃, hr, h⟩ := h
        obtain ⟨rfl, rfl⟩ := pure_eq_ok.mp h
        obtain ⟨used, left, rfl, hrest, hrec, hnotes, hdepth⟩ :=
          recordType_recognizes.sound hend hs hr
        obtain rfl : notes = ∅ := hnotes
        exact ⟨used, left, rfl, hrest, .bare hrec hdepth⟩
      · obtain ⟨rfl, rfl⟩ := pure_eq_ok.mp h
        exact ⟨[], u, rfl, hs, .none⟩
  complete := by
    rintro eof ts shape w left hend hs hshape ⟨heq, hbrace⟩
    cases hshape with
    | none =>
      refine ⟨none, ts, ?_, rfl, hs⟩
      rw [optionalShape, bind_of_ok (eat_other hend hs heq), if_neg Bool.false_ne_true,
        ifMark_other hend hs hbrace]
      rfl
    | @bare fields _ hrec hdepth =>
      have hfront := isRecord_front hrec left
      obtain ⟨r, rest, hr, rfl, hrest⟩ :=
        recordType_recognizes.complete (a := ⟨fields, ∅⟩) hend hs ⟨hrec, rfl, hdepth⟩ trivial
      have hother : front (w ++ left) ≠ .mark .equals := by
        rw [hfront]
        nofun
      refine ⟨some ⟨fields, ∅⟩, rest, ?_, rfl, hrest⟩
      rw [optionalShape, bind_of_ok (eat_other hend hs hother), if_neg Bool.false_ne_true,
        ifMark_of_front hend hs hfront, bind_of_ok hr]
      rfl
    | @equals fields _ hrec hdepth =>
      obtain ⟨ts₁, he, hs₁⟩ := eat_mark (.ended eof) hs
      obtain ⟨r, rest, hr, rfl, hrest⟩ :=
        recordType_recognizes.complete (a := ⟨fields, ∅⟩) hend hs₁ ⟨hrec, rfl, hdepth⟩ trivial
      refine ⟨some ⟨fields, ∅⟩, rest, ?_, rfl, hrest⟩
      rw [optionalShape, bind_of_ok he, if_pos rfl, bind_of_ok hr]
      rfl

/-- Tags are recognized. -/
theorem optionalTags_recognizes : Recognizes optionalTags id IsTags
    (fun s ↦ s ≠ .word "tags" ∧ EndsType s) where
  sound := by
    intro around ts b rest u hend hs h
    rw [optionalTags] at h
    rcases ifWord_shows hend hs h with ⟨ts₁, u, rfl, hs₁, h⟩ | h
    · rw [bind_eq_ok] at h
      obtain ⟨type, ts₂, htype, h⟩ := h
      obtain ⟨rfl, rfl⟩ := pure_eq_ok.mp h
      obtain ⟨used, left, rfl, hrest, ht, hdepth⟩ := typeExpr_recognizes.sound hend hs₁ htype
      exact ⟨_, left, rfl, hrest, .some ht hdepth⟩
    · obtain ⟨rfl, rfl⟩ := pure_eq_ok.mp h
      exact ⟨[], u, rfl, hs, .none⟩
  complete := by
    rintro eof ts tags w left hend hs htags ⟨hword, hf⟩
    cases htags with
    | none => exact ⟨none, ts, ifWord_other hend hs hword, rfl, hs⟩
    | some ht hdepth =>
      obtain ⟨ts₁, hs₁, hclause⟩ := ifWord_of_spells (.ended eof) hs
      obtain ⟨type, rest, htype, rfl, hrest⟩ :=
        typeExpr_recognizes.complete hend hs₁ ⟨ht, hdepth⟩ hf
      exact ⟨some type, rest, hclause.trans (bind_of_ok htype), rfl, hrest⟩

/-! ### Enumerated entity types -/

private theorem literal_recognizes :
    Recognizes (expect .literal) Token.value IsLiteral fun _ ↦ True where
  sound := by
    intro around ts t rest u hend hs h
    obtain ⟨left, rfl, hrest⟩ := expect_literal_shows hend hs h
    exact ⟨_, left, rfl, hrest, .literal t.value⟩
  complete := by
    intro eof ts value w left hend hs hvalue _
    cases hvalue
    obtain ⟨t, rest, ht, hvalue, hrest⟩ := expect_literal (.ended eof) hs
    exact ⟨t, rest, ht, hvalue, hrest⟩

private theorem enumValuesUpTo_succ_eq_ok {n : Nat} {earlier values : List String} :
    enumValuesUpTo (n + 1) earlier around ts = .ok (values, rest) ↔
      (values = earlier ∧ eat .comma around ts = .ok (false, rest)) ∨
      ∃ t mid mid', t.value ∉ earlier ∧ eat .comma around ts = .ok (true, mid) ∧
        expect .literal around mid = .ok (t, mid') ∧
        enumValuesUpTo n (earlier ++ [t.value]) around mid' = .ok (values, rest) := by
  rw [enumValuesUpTo, bind_eq_ok]
  constructor
  · rintro ⟨found, mid, he, h⟩
    cases found with
    | false =>
      obtain ⟨rfl, rfl⟩ := pure_eq_ok.mp h
      exact .inl ⟨rfl, he⟩
    | true =>
      rw [if_pos rfl, bind_eq_ok] at h
      obtain ⟨t, mid', ht, h⟩ := h
      split at h
      · exact absurd h fail_ne_ok
      · next hnew =>
        exact .inr ⟨t, mid, mid', mt List.contains_iff_mem.mpr hnew, he, ht, h⟩
  · rintro (⟨rfl, he⟩ | ⟨t, mid, mid', hnew, he, ht, h⟩)
    · exact ⟨false, rest, he, rfl⟩
    · refine ⟨true, mid, he, ?_⟩
      rw [if_pos rfl, bind_of_ok ht, if_neg (mt List.contains_iff_mem.mp hnew), h]

private theorem enumValuesUpTo_eq_ok_iff (n : Nat) :
    ∀ {earlier ts values rest}, earlier.Nodup →
      (enumValuesUpTo n earlier around ts = .ok (values, rest) ↔
        ∃ more, repeatUpTo (after .comma (expect .literal)) n around ts = .ok (more, rest) ∧
          values = earlier ++ more.map Token.value ∧ values.Nodup) := by
  induction n with
  | zero =>
    intro earlier ts values rest hd
    constructor
    · intro h
      obtain ⟨rfl, rfl⟩ := pure_eq_ok.mp h
      exact ⟨[], rfl, by simp, hd⟩
    · rintro ⟨more, h, rfl, _⟩
      obtain ⟨rfl, rfl⟩ := pure_eq_ok.mp h
      simp only [List.map_nil, List.append_nil]
      rfl
  | succ n ih =>
    intro earlier ts values rest hd
    have concat {value : String} (hnew : value ∉ earlier) : (earlier ++ [value]).Nodup := by
      simpa using nodup_map_concat (f := id) (by simpa using hd) (by simpa using hnew)
    rw [enumValuesUpTo_succ_eq_ok]
    constructor
    · rintro (⟨rfl, he⟩ | ⟨t, mid, mid', hnew, he, ht, h⟩)
      · exact ⟨[], repeatUpTo_after_succ_eq_ok.mpr (.inl ⟨rfl, he⟩), by simp, hd⟩
      · obtain ⟨more, hmore, rfl, hdiff⟩ := (ih (concat hnew)).mp h
        exact ⟨t :: more, repeatUpTo_after_succ_eq_ok.mpr
          (.inr ⟨t, more, mid, mid', rfl, he, ht, hmore⟩), by simp, hdiff⟩
    · rintro ⟨more, h, rfl, hdiff⟩
      rcases repeatUpTo_after_succ_eq_ok.mp h with
        ⟨rfl, he⟩ | ⟨t, more, mid, mid', rfl, he, ht, hmore⟩
      · exact .inl ⟨by simp, he⟩
      · have hnew : t.value ∉ earlier := by
          simpa using (nodup_map_before (f := id) (by simpa using hdiff)).2
        exact .inr ⟨t, mid, mid', hnew, he, ht,
          (ih (concat hnew)).mpr ⟨more, hmore, by simp, hdiff⟩⟩

variable {ns : Option Name} {notes : Annotations} {items : List Item}

private theorem enumEntity_sound (hend : Ends around) (hs : Spells ts u)
    (h : enumEntity ns notes around ts = .ok (items, rest)) :
    ∃ used left, u = used ++ left ∧ Spells rest left ∧
      IsBody ns notes (items.map Item.statement) (.word "entity" :: used) := by
  rw [enumEntity, bind_eq_ok] at h
  obtain ⟨⟨key, span⟩, ts₁, hkey, h⟩ := h
  obtain ⟨_, u, rfl, hs₁, ⟨⟩⟩ := identifier_recognizes.sound hend hs hkey
  rw [bind_eq_ok] at h
  obtain ⟨word, ts₂, hword, h⟩ := h
  obtain ⟨u, rfl, hs₂⟩ := expectWord_shows hend hs₁ hword
  rw [bind_eq_ok] at h
  obtain ⟨opening, ts₃, hopen, h⟩ := h
  obtain ⟨u, rfl, hs₃⟩ := expect_mark_shows hend hs₂ hopen
  rw [bind_eq_ok] at h
  obtain ⟨first, ts₄, hfirst, h⟩ := h
  obtain ⟨u, rfl, hs₄⟩ := expect_literal_shows hend hs₃ hfirst
  rw [bind_eq_ok] at h
  obtain ⟨values, ts₅, hvalues, h⟩ := h
  obtain ⟨more, hmore, rfl, hdiff⟩ :=
    (enumValuesUpTo_eq_ok_iff _ (List.pairwise_singleton _ first.value)).mp hvalues
  obtain ⟨used, u, rfl, hs₅, hall⟩ :=
    repeatUpTo_after_sound literal_recognizes hend _ hs₄ hmore
  rw [bind_eq_ok] at h
  obtain ⟨close, ts₆, hclose, h⟩ := h
  obtain ⟨u, rfl, hs₆⟩ := expect_mark_shows hend hs₅ hclose
  rw [bind_eq_ok] at h
  obtain ⟨stop, ts₇, hstop, h⟩ := h
  obtain ⟨left, rfl, hs₇⟩ := expect_mark_shows hend hs₆ hstop
  obtain ⟨rfl, rfl⟩ := pure_eq_ok.mp h
  refine ⟨.word key.text :: .word "enum" :: .mark .leftBracket ::
    ([.literal first.value] ++ used) ++ [.mark .rightBracket, .mark .semicolon], left, ?_, hs₇,
    .enum ?_ hdiff⟩
  · simp
  · exact hall _ _ (.literal first.value)

private theorem enumEntity_complete (ns : Option Name) (notes : Annotations) {eof : Token}
    (hend : Ends (.ended eof)) {key : Identifier} {first : String} {others : List String}
    {w : List Symbol}
    (hvalues : Separated .comma IsLiteral (first :: others) w) (hdiff : (first :: others).Nodup)
    (hs : Spells ts (.word key.text :: .word "enum" :: .mark .leftBracket ::
      (w ++ .mark .rightBracket :: .mark .semicolon :: left))) :
    ∃ items rest, enumEntity ns notes (.ended eof) ts = .ok (items, rest) ∧
      items.map Item.statement = [.entityType ns key (.enumerated first others) notes] ∧
      Spells rest left := by
  obtain ⟨⟨key, span⟩, ts₁, hkey, rfl, hs₁⟩ := identifier_of_spells hend hs
  obtain ⟨word, ts₂, hword, hs₂⟩ := expectWord_of_spells (.ended eof) hs₁
  obtain ⟨opening, ts₃, hopen, hs₃⟩ := expect_mark (.ended eof) hs₂
  have hne value v (h : IsLiteral value v) : v ≠ [] := by
    cases h
    exact List.cons_ne_nil _ _
  obtain ⟨⟨t, more⟩, ts₅, hall, hview, hs₅⟩ :=
    (literal_recognizes.commaSeparated trivial hne).complete hend hs₃ hvalues ⟨nofun, trivial⟩
  rw [commaSeparated, bind_eq_ok] at hall
  obtain ⟨_, ts₄, hfirst, hall⟩ := hall
  rw [bind_eq_ok] at hall
  obtain ⟨_, mid, hmore, hall⟩ := hall
  obtain ⟨⟨⟩, rfl⟩ := pure_eq_ok.mp hall
  obtain ⟨rfl, rfl⟩ := List.cons.inj hview
  dsimp only at hvalues hdiff ⊢
  obtain ⟨close, ts₆, hclose, hs₆⟩ := expect_mark (.ended eof) hs₅
  obtain ⟨stop, rest, hstop, hrest⟩ := expect_mark (.ended eof) hs₆
  have hread : withSteps (fun n ↦ enumValuesUpTo n [t.value]) (.ended eof) ts₄ =
      .ok (t.value :: more.map Token.value, mid) :=
    (enumValuesUpTo_eq_ok_iff _ (List.pairwise_singleton _ t.value)).mpr ⟨more, hmore, rfl, hdiff⟩
  refine ⟨[.entityType ⟨ns, key, span, .enumerated t.value (more.map Token.value), notes⟩], rest,
    ?_, rfl, hrest⟩
  rw [enumEntity, bind_of_ok hkey]
  dsimp only
  rw [bind_of_ok hword, bind_of_ok hopen, bind_of_ok hfirst, bind_of_ok hread,
    bind_of_ok hclose, bind_of_ok hstop]
  rfl

/-! ### Standard entity types -/

private theorem standardEntities_sound (hend : Ends around) (hs : Spells ts u)
    (h : standardEntities ns notes around ts = .ok (items, rest)) :
    ∃ used left, u = used ++ left ∧ Spells rest left ∧
      IsBody ns notes (items.map Item.statement) (.word "entity" :: used) := by
  rw [standardEntities, bind_eq_ok] at h
  obtain ⟨⟨first, others⟩, ts₁, hkeys, h⟩ := h
  obtain ⟨k, u, rfl, hs₁, hk⟩ :=
    (identifier_recognizes.commaSeparated trivial isIdentifier_ne_nil).sound hend hs hkeys
  dsimp only at h
  rw [bind_eq_ok] at h
  obtain ⟨memberOf, ts₂, hmember, h⟩ := h
  obtain ⟨m, u, rfl, hs₂, hm⟩ :=
    (optionalIn_recognizes entityRefs_recognizes).sound hend hs₁ hmember
  rw [bind_eq_ok] at h
  obtain ⟨shape, ts₃, hshape, h⟩ := h
  obtain ⟨s, u, rfl, hs₃, hsh⟩ := optionalShape_recognizes.sound hend hs₂ hshape
  rw [bind_eq_ok] at h
  obtain ⟨tags, ts₄, htags, h⟩ := h
  obtain ⟨t, u, rfl, hs₄, ht⟩ := optionalTags_recognizes.sound hend hs₃ htags
  rw [bind_eq_ok] at h
  obtain ⟨stop, ts₅, hstop, h⟩ := h
  obtain ⟨left, rfl, hs₅⟩ := expect_mark_shows hend hs₄ hstop
  obtain ⟨rfl, rfl⟩ := pure_eq_ok.mp h
  refine ⟨k ++ m ++ s ++ t ++ [.mark .semicolon], left, by simp, hs₅, ?_⟩
  have hbody : IsBody ns notes _ _ := .entity hk hm hsh ht
  simpa [Function.comp_def, Item.statement] using hbody

/-- The keys and the parents of standard entity types are read, and then the shape and the tags. -/
theorem standardEntities_head (ns : Option Name) (notes : Annotations) {eof : Token}
    (hend : Ends (.ended eof)) {keys : List Identifier} {memberOf : List Name} {k m : List Symbol}
    (hk : Separated .comma IsIdentifier keys k) (hm : IsParents IsPath memberOf m)
    (hcomma : front left ≠ .mark .comma) (hin : front left ≠ .word "in")
    (hcolons : front left ≠ .mark .doubleColon) (hs : Spells ts (k ++ (m ++ left))) :
    ∃ (spelled : List (Identifier × Span)) (mid : List Token), spelled.map Prod.fst = keys ∧
      Spells mid left ∧ standardEntities ns notes (.ended eof) ts =
        (optionalShape >>= fun shape ↦ optionalTags >>= fun tags ↦
          expect (.mark .semicolon) >>= fun _ ↦ pure (spelled.map fun key ↦
            .entityType ⟨ns, key.1, key.2, .standard memberOf shape tags, notes⟩)) (.ended eof)
          mid := by
  obtain ⟨⟨first, others⟩, ts₁, hkeys, rfl, hs₁⟩ :=
    (identifier_recognizes.commaSeparated trivial isIdentifier_ne_nil).complete hend hs hk
      ⟨isParents_front_ne hm nofun hcomma, trivial⟩
  obtain ⟨memberOf, mid, hmember, rfl, hmid⟩ :=
    (optionalIn_recognizes entityRefs_recognizes).complete hend hs₁ hm ⟨hin, hcolons⟩
  refine ⟨first :: others, mid, rfl, hmid, ?_⟩
  rw [standardEntities, bind_of_ok hkeys]
  dsimp only
  rw [bind_of_ok hmember]
  rfl

private theorem standardEntities_complete (ns : Option Name) (notes : Annotations) {eof : Token}
    (hend : Ends (.ended eof)) {keys : List Identifier} {memberOf : List Name}
    {shape : Option (RecordType TypeRef)}
    {tags : Option (TypeExpr TypeRef)} {k m s t : List Symbol}
    (hk : Separated .comma IsIdentifier keys k) (hm : IsParents IsPath memberOf m)
    (hsh : IsShape shape s) (ht : IsTags tags t)
    (hs : Spells ts (k ++ (m ++ (s ++ (t ++ .mark .semicolon :: left))))) :
    ∃ items rest, standardEntities ns notes (.ended eof) ts = .ok (items, rest) ∧
      items.map Item.statement =
        keys.map (fun key ↦ .entityType ns key (.standard memberOf shape tags) notes) ∧
      Spells rest left := by
  -- What may follow each part is the start of a later one.
  have htail {x} (htags : x ≠ .word "tags") (hstop : .mark .semicolon ≠ x) :
      front (t ++ .mark .semicolon :: left) ≠ x := isTags_front_ne ht htags hstop
  obtain ⟨spelled, ts₁, rfl, hs₁, hhead⟩ := standardEntities_head ns notes hend hk hm
    (isShape_front_ne hsh nofun nofun (htail nofun nofun))
    (isShape_front_ne hsh nofun nofun (htail (by decide) nofun))
    (isShape_front_ne hsh nofun nofun (htail nofun nofun)) hs
  obtain ⟨shape, ts₂, hshape, rfl, hs₂⟩ :=
    optionalShape_recognizes.complete hend hs₁ hsh ⟨htail nofun nofun, htail nofun nofun⟩
  obtain ⟨tags, ts₃, htags, rfl, hs₃⟩ :=
    optionalTags_recognizes.complete hend hs₂ ht ⟨nofun, nofun, nofun⟩
  obtain ⟨stop, rest, hstop, hrest⟩ := expect_mark (.ended eof) hs₃
  refine ⟨spelled.map fun key ↦
    .entityType ⟨ns, key.1, key.2, .standard memberOf shape tags, notes⟩, rest, ?_, ?_, hrest⟩
  · rw [hhead, bind_of_ok hshape, bind_of_ok htags, bind_of_ok hstop]
    rfl
  · simp [Function.comp_def, Item.statement]

/-! ### Declarations of types -/

/-- Looking for an enumeration takes nothing. -/
theorem opensEnum_stays (hend : Ends around) (hs : Spells ts u) {b : Bool}
    (h : opensEnum around ts = .ok (b, rest)) : rest = ts := by
  rw [opensEnum, bind_eq_ok] at h
  obtain ⟨t, ts₁, hpeek, h⟩ := h
  obtain ⟨rfl, -⟩ := peek_shows hend hs hpeek
  split at h
  · rw [bind_eq_ok] at h
    obtain ⟨second, ts₂, hsecond, h⟩ := h
    obtain ⟨rfl, -⟩ := peekSecond_shows hend hs hsecond
    exact (pure_eq_ok.mp h).2.symm
  · exact (pure_eq_ok.mp h).2.symm

private theorem opensEnum_of_spells {eof : Token} (hend : Ends (.ended eof)) (hs : Spells ts u)
    {text : String} (hu : front u = .word text) :
    opensEnum (.ended eof) ts = .ok (decide (front u.tail = .word "enum"), ts) := by
  obtain ⟨t, hpeek, ht⟩ := peek_of_spells hend hs
  obtain ⟨second, hsecond, ht₂⟩ := peekSecond_of_spells hend hs
  rw [hu] at ht
  cases ht
  rw [opensEnum, bind_of_ok hpeek, if_pos rfl, bind_of_ok hsecond]
  simp only [← ht₂.isWord_iff, Bool.decide_eq_true]
  rfl

/-- A declaration whose keys do not stand before the word `enum` is one of standard entity
types. -/
theorem entity_standard (ns : Option Name) (notes : Annotations) {eof : Token}
    (hend : Ends (.ended eof)) {keys : List Identifier} {k : List Symbol}
    (hk : Separated .comma IsIdentifier keys k) (henum : front left ≠ .word "enum")
    (hs : Spells ts (.word "entity" :: (k ++ left))) :
    ∃ mid, Spells mid (k ++ left) ∧
      entity ns notes (.ended eof) ts = standardEntities ns notes (.ended eof) mid := by
  obtain ⟨word, mid, hword, hmid⟩ := expectWord_of_spells (.ended eof) hs
  obtain ⟨text, hfirst, hsecond⟩ : ∃ text, front (k ++ left) = .word text ∧
      front (k ++ left).tail ≠ .word "enum" := by
    cases hk with
    | last hid =>
      cases hid
      exact ⟨_, rfl, henum⟩
    | more hid _ =>
      cases hid
      exact ⟨_, rfl, nofun⟩
  refine ⟨mid, hmid, ?_⟩
  rw [entity, bind_of_ok hword, bind_of_ok (opensEnum_of_spells hend hmid hfirst),
    if_neg (by simp [hsecond])]

/-- Declarations of entity types are recognized. -/
theorem entity_recognizes : Recognizes (entity ns notes) (List.map Item.statement)
    (fun ss w ↦ IsBody ns notes ss w ∧ front w = .word "entity") fun _ ↦ True where
  sound := by
    intro around ts items rest u hend hs h
    rw [entity, bind_eq_ok] at h
    obtain ⟨word, ts₁, hword, h⟩ := h
    obtain ⟨u, rfl, hs₁⟩ := expectWord_shows hend hs hword
    rw [bind_eq_ok] at h
    obtain ⟨opens, ts₂, hopens, h⟩ := h
    obtain rfl := opensEnum_stays hend hs₁ hopens
    have hbody : ∃ used left, u = used ++ left ∧ Spells rest left ∧
        IsBody ns notes (items.map Item.statement) (.word "entity" :: used) := by
      cases opens with
      | true => exact enumEntity_sound hend hs₁ h
      | false => exact standardEntities_sound hend hs₁ h
    obtain ⟨used, left, rfl, hrest, hbody⟩ := hbody
    exact ⟨_, left, rfl, hrest, hbody, rfl⟩
  complete := by
    rintro eof ts ss w left hend hs ⟨hbody, hfront⟩ -
    cases hbody with
    | @entity keys _ _ _ k m s t hk hm hsh ht =>
      simp only [List.cons_append, List.append_assoc, List.nil_append] at hs
      have henum : front (m ++ (s ++ (t ++ .mark .semicolon :: left))) ≠ .word "enum" :=
        isParents_front_ne hm (by decide)
          (isShape_front_ne hsh nofun nofun (isTags_front_ne ht (by decide) nofun))
      obtain ⟨ts₁, hs₁, hread⟩ := entity_standard ns notes hend hk henum hs
      obtain ⟨items, rest, hitems, hview, hrest⟩ :=
        standardEntities_complete ns notes hend hk hm hsh ht hs₁
      exact ⟨items, rest, hread.trans hitems, hview, hrest⟩
    | @enum first others v key hvalues hdiff =>
      simp only [List.cons_append, List.append_assoc, List.nil_append] at hs
      obtain ⟨word, ts₁, hword, hs₁⟩ := expectWord_of_spells (.ended eof) hs
      obtain ⟨items, rest, hitems, hview, hrest⟩ :=
        enumEntity_complete ns notes hend hvalues hdiff hs₁
      refine ⟨items, rest, ?_, hview, hrest⟩
      rw [entity, bind_of_ok hword, bind_of_ok (opensEnum_of_spells hend hs₁ rfl),
        if_pos (by simp)]
      exact hitems
    | action => simp at hfront
    | commonType => simp at hfront

/-- Declarations of common types are recognized. -/
theorem commonType_recognizes : Recognizes (commonType ns notes) (List.map Item.statement)
    (fun ss w ↦ IsBody ns notes ss w ∧ front w = .word "type") fun _ ↦ True where
  sound := by
    intro around ts items rest u hend hs h
    rw [commonType, bind_eq_ok] at h
    obtain ⟨word, ts₁, hword, h⟩ := h
    obtain ⟨u, rfl, hs₁⟩ := expectWord_shows hend hs hword
    rw [bind_eq_ok] at h
    obtain ⟨⟨key, span⟩, ts₂, hkey, h⟩ := h
    obtain ⟨_, u, rfl, hs₂, ⟨⟩⟩ := identifier_recognizes.sound hend hs₁ hkey
    dsimp only at h
    rw [bind_eq_ok] at h
    obtain ⟨equals, ts₃, hequals, h⟩ := h
    obtain ⟨u, rfl, hs₃⟩ := expect_mark_shows hend hs₂ hequals
    rw [bind_eq_ok] at h
    obtain ⟨type, ts₄, htype, h⟩ := h
    obtain ⟨v, u, rfl, hs₄, ht, hdepth⟩ := typeExpr_recognizes.sound hend hs₃ htype
    rw [bind_eq_ok] at h
    obtain ⟨stop, ts₅, hstop, h⟩ := h
    obtain ⟨left, rfl, hs₅⟩ := expect_mark_shows hend hs₄ hstop
    obtain ⟨rfl, rfl⟩ := pure_eq_ok.mp h
    exact ⟨_, left, by simp, hs₅, .commonType ht hdepth, rfl⟩
  complete := by
    rintro eof ts ss w left hend hs ⟨hbody, hfront⟩ -
    cases hbody with
    | @commonType t v key ht hdepth =>
      simp only [List.cons_append, List.append_assoc, List.nil_append] at hs
      obtain ⟨word, ts₁, hword, hs₁⟩ := expectWord_of_spells (.ended eof) hs
      obtain ⟨⟨key, span⟩, ts₂, hkey, rfl, hs₂⟩ := identifier_of_spells hend hs₁
      obtain ⟨equals, ts₃, hequals, hs₃⟩ := expect_mark (.ended eof) hs₂
      obtain ⟨type, ts₄, htype, rfl, hs₄⟩ :=
        typeExpr_recognizes.complete hend hs₃ ⟨ht, hdepth⟩ ⟨nofun, nofun⟩
      obtain ⟨stop, rest, hstop, hrest⟩ := expect_mark (.ended eof) hs₄
      refine ⟨[.commonType ⟨ns, key, span, type, notes⟩], rest, ?_, rfl, hrest⟩
      rw [commonType, bind_of_ok hword, bind_of_ok hkey]
      dsimp only
      rw [bind_of_ok hequals, bind_of_ok htype, bind_of_ok hstop]
      rfl
    | entity => simp at hfront
    | enum => simp at hfront
    | action => simp at hfront

end Grammar

end PolicySchema.Text
