import PolicySchema.Proofs.Text.BlockRecognition

/-!
# Refusing types that nest too deep

A reader that comes to a type which nests too deep stops there for that cause, whatever comes after
it. The symbols of a text up to such a type make a language of their own (`Overruns`): declarations
that can be read, maybe the headers of blocks, and the declaration with the type.
-/

namespace PolicySchema.Text.Grammar

open Reader Syntax

variable {α β : Type} {eof : Token} {ts : List Token} {left : List Symbol}

/-- The reader stops for a type that nests too deep. -/
def Refuses (p : Reader α) (eof : Token) (ts : List Token) : Prop :=
  ∃ span, p (.ended eof) ts = .error ⟨.tooDeep, span⟩

/-- What is refused is refused with whatever would be read after it. -/
theorem Refuses.bind {p : Reader α} (h : Refuses p eof ts) (f : α → Reader β) :
    Refuses (p >>= f) eof ts := by
  obtain ⟨span, h⟩ := h
  refine ⟨span, ?_⟩
  change Reader.bind p f (.ended eof) ts = _
  rw [Reader.bind, h]

/-- What is refused after something was read is refused with it. -/
theorem Refuses.after {p : Reader α} {f : α → Reader β} {a : α} {mid : List Token}
    (hp : p (.ended eof) ts = .ok (a, mid)) (h : Refuses (f a) eof mid) :
    Refuses (p >>= f) eof ts := by
  rw [Refuses, bind_of_ok hp]
  exact h

/-! ### Types -/

/-- The types inside a set or a record are refused from a depth on. -/
def RefusesInner (inner? : Option (Reader (TypeExpr TypeRef))) (bound : Nat) (eof : Token) : Prop :=
  ∀ inner, inner? = some inner → ∀ {t w ts left}, IsType t w → bound ≤ t.depth →
    Spells ts (w ++ left) → Refuses inner eof ts

private theorem attributesUpTo_refuses {inner : Reader (TypeExpr TypeRef)} {bound : Nat}
    (hend : Ends (.ended eof)) (hp : ReadsInner (some inner) bound)
    (hrefuse : RefusesInner (some inner) bound eof)
    {attributes : List (String × Attribute TypeRef)} {w : List Symbol}
    (h : Trailing IsAttribute attributes w) :
    ∀ {n ts} (done : List (String × Attribute TypeRef)), attributes.length ≤ n →
      (∃ a ∈ attributes, bound ≤ a.2.type.depth) → ((done ++ attributes).map Prod.fst).Nodup →
      Spells ts (w ++ left) →
      Refuses (attributesUpTo inner n (Table.ofList done)) eof ts := by
  -- An attribute whose type is too deep is refused, whatever follows.
  have hdeep {a : String × Attribute TypeRef} {u v : List Symbol} {n : Nat} {ts : List Token}
      {done : Table String (Attribute TypeRef)} (ha : IsAttribute a u)
      (hdepth : bound ≤ a.2.type.depth) (hs : Spells ts (u ++ v)) :
      Refuses (attributesUpTo inner (n + 1) done) eof ts := by
    obtain ⟨span, x, mid, hx, hmid, hread⟩ := attributesUpTo_type inner hend ha hs n done
    rw [Refuses, hread]
    exact (hrefuse inner rfl hx hdepth hmid).bind _
  induction h with
  | none =>
    rintro n ts done - ⟨a, ha, -⟩
    cases ha
  | last ha =>
    rintro n ts done hn ⟨b, hb, hdepth⟩ - hs
    obtain ⟨n, rfl⟩ := Nat.exists_eq_add_one.mpr hn
    obtain rfl := List.mem_singleton.mp hb
    exact hdeep ha hdepth hs
  | @more a as u v ha _ ih =>
    intro n ts done hn hex hdiff hs
    obtain ⟨n, rfl⟩ := Nat.exists_eq_add_one.mpr (Nat.zero_lt_of_lt hn)
    rw [List.append_assoc] at hs
    by_cases hdepth : a.2.type.depth < bound
    · obtain ⟨mid, hmid, hstep⟩ := attributesUpTo_step (hp.recognizes inner rfl) hend ha hdepth
        (nodup_map_before hdiff).1 (nodup_map_before hdiff).2 hs ⟨nofun, nofun⟩ n
      obtain ⟨mid', he, hmid'⟩ := eat_mark (.ended eof) hmid
      have hrest : ∃ b ∈ as, bound ≤ b.2.type.depth := by
        obtain ⟨b, hb, hbdepth⟩ := hex
        rcases List.mem_cons.mp hb with rfl | hb
        · omega
        · exact ⟨b, hb, hbdepth⟩
      rw [List.append_cons] at hdiff
      rw [Refuses, hstep, bind_of_ok he]
      exact ih _ (by simpa using hn) hrest hdiff hmid'
    · exact hdeep ha (Nat.le_of_not_lt hdepth) hs

private theorem recordLevel_refuses {inner? : Option (Reader (TypeExpr TypeRef))} {bound : Nat}
    (hend : Ends (.ended eof)) (hinner : ReadsInner inner? bound)
    (hrefuse : RefusesInner inner? bound eof) {fields : Fields TypeRef} {w : List Symbol}
    (h : IsRecord fields w) (hdepth : bound ≤ fields.depth) (hs : Spells ts (w ++ left)) :
    Refuses (recordLevel inner?) eof ts := by
  obtain ⟨hall, hdiff⟩ := h
  rename_i attributes u
  rw [List.append_assoc] at hs
  obtain ⟨brace, ts₁, hbrace, hs₁⟩ := expect_mark (.ended eof) hs
  refine Refuses.after hbrace ?_
  cases inner? with
  | none => exact ⟨brace.span, rfl⟩
  | some inner =>
    have hlen : attributes.length ≤ ts₁.length + 1 := by
      have := hall.length_le (fun a u ha hu ↦ isAttribute_ne_nil ha hu)
      have := hs₁.length_eq
      simp at this
      omega
    have hex : ∃ a ∈ attributes, bound ≤ a.2.type.depth := by
      have hnot := mt (depth_ofTable_lt_iff hdiff).mpr (Nat.not_lt.mpr hdepth)
      have hpos := hinner.room.mpr ⟨inner, rfl⟩
      simpa [hpos] using hnot
    have hfields : Refuses (withSteps fun n ↦ attributesUpTo inner n ∅) eof ts₁ :=
      attributesUpTo_refuses hend hinner hrefuse hall [] hlen hex hdiff hs₁
    exact Refuses.after rfl (hfields.bind _)

private theorem setLevel_refuses {inner? : Option (Reader (TypeExpr TypeRef))} {bound : Nat}
    (hrefuse : RefusesInner inner? bound eof) {element : TypeExpr TypeRef} {w : List Symbol}
    (h : IsType element w) (hdepth : bound ≤ element.depth)
    (hs : Spells ts (.word "Set" :: .mark .leftAngle :: (w ++ left))) :
    Refuses (setLevel inner?) eof ts := by
  cases hs with
  | @cons word _ _ _ _ hs =>
    cases hs with
    | cons _ hs =>
      refine Refuses.after rfl (Refuses.after rfl ?_)
      cases inner? with
      | none => exact ⟨word.span, rfl⟩
      | some inner => exact Refuses.after rfl ((hrefuse inner rfl h hdepth hs).bind _)

private theorem typeLevel_refuses {inner? : Option (Reader (TypeExpr TypeRef))} {bound : Nat}
    (hend : Ends (.ended eof)) (hinner : ReadsInner inner? bound)
    (hrefuse : RefusesInner inner? bound eof) {t : TypeExpr TypeRef} {w : List Symbol}
    (h : IsType t w) (hdepth : bound < t.depth) (hs : Spells ts (w ++ left)) :
    Refuses (typeLevel inner?) eof ts := by
  cases h with
  | record hrec =>
    rw [Refuses, typeLevel_of_brace inner? hend hs (isRecord_front hrec left)]
    exact (recordLevel_refuses hend hinner hrefuse hrec (Nat.le_of_lt_succ hdepth) hs).bind _
  | set helement =>
    rw [List.append_assoc] at hs
    rw [Refuses, typeLevel_of_word inner? hend hs rfl, if_pos ⟨rfl, rfl⟩]
    exact setLevel_refuses hrefuse helement (Nat.le_of_lt_succ hdepth) hs
  | named =>
    rw [TypeExpr.depth] at hdepth
    omega

/-- With room for the given number of sets and records, a type in which more enclose one another is
refused. -/
theorem typeUpTo_refuses (hend : Ends (.ended eof)) (n : Nat) {t : TypeExpr TypeRef}
    {w : List Symbol} (h : IsType t w) (hdepth : n < t.depth) (hs : Spells ts (w ++ left)) :
    Refuses (typeUpTo n) eof ts := by
  induction n generalizing t w ts left with
  | zero => exact typeLevel_refuses hend readsInner_none nofun h hdepth hs
  | succ n ih =>
    refine typeLevel_refuses hend (readsInner_typeUpTo n) ?_ h hdepth hs
    rintro _ ⟨⟩ t w ts left ht hdepth hs
    exact ih ht hdepth hs

/-- A record that nests too deep is refused. -/
theorem recordType_refuses (hend : Ends (.ended eof)) {fields : Fields TypeRef} {w : List Symbol}
    (h : IsRecord fields w) (hdepth : TypeExpr.maxDepth ≤ fields.depth)
    (hs : Spells ts (w ++ left)) : Refuses recordType eof ts := by
  refine recordLevel_refuses hend (readsInner_typeUpTo (TypeExpr.maxDepth - 1)) ?_ h hdepth hs
  rintro _ ⟨⟩ t w ts left ht hdepth hs
  exact typeUpTo_refuses hend _ ht hdepth hs

/-! ### Declarations -/

/-- A declaration after its annotations, up to a type in it that nests too deep. -/
inductive IsOverdeep : List Symbol → Prop where
  | shape {keys memberOf fields k m w} : Separated .comma IsIdentifier keys k →
      IsParents IsPath memberOf m → IsRecord fields w → TypeExpr.maxDepth ≤ fields.depth →
      IsOverdeep (.word "entity" :: k ++ m ++ w)
  | tags {keys memberOf shape t k m s w} : Separated .comma IsIdentifier keys k →
      IsParents IsPath memberOf m → IsShape shape s → IsType t w → TypeExpr.maxDepth < t.depth →
      IsOverdeep (.word "entity" :: k ++ m ++ s ++ .word "tags" :: w)
  | context {keys memberOf entries t k m e w} : Separated .comma IsKey keys k →
      IsParents IsActionRef memberOf m → Punctuated IsEntry entries e →
      ((entries ++ [Entry.context t]).map Entry.key).Nodup → IsType t w →
      TypeExpr.maxDepth < t.depth →
      IsOverdeep (.word "action" :: k ++ m ++ .word "appliesTo" :: .mark .leftBrace :: e ++
        .word "context" :: .mark .colon :: w)
  | commonType {t w} (key : Identifier) : IsType t w → TypeExpr.maxDepth < t.depth →
      IsOverdeep (.word "type" :: .word key.text :: .mark .equals :: w)

variable {ns : Option Name} {notes : Annotations}

private theorem optionalShape_refuses (hend : Ends (.ended eof)) {fields : Fields TypeRef}
    {w : List Symbol} (h : IsRecord fields w) (hdepth : TypeExpr.maxDepth ≤ fields.depth)
    (hs : Spells ts (w ++ left)) : Refuses optionalShape eof ts := by
  have hfront := isRecord_front h left
  obtain ⟨t, hpeek, ht⟩ := peek_of_spells hend hs
  refine Refuses.after (eat_other hend hs (by rw [hfront]; nofun)) ?_
  rw [if_neg Bool.false_ne_true]
  refine Refuses.after hpeek ?_
  rw [if_pos (by rw [ht.kind_mark_iff, hfront])]
  exact (recordType_refuses hend h hdepth hs).bind _

private theorem optionalTags_refuses (hend : Ends (.ended eof)) {t : TypeExpr TypeRef}
    {w : List Symbol} (h : IsType t w) (hdepth : TypeExpr.maxDepth < t.depth)
    (hs : Spells ts (.word "tags" :: (w ++ left))) : Refuses optionalTags eof ts := by
  obtain ⟨mid, hmid, hclause⟩ := ifWord_of_spells (.ended eof) hs
  rw [Refuses, optionalTags, hclause]
  exact (typeUpTo_refuses hend _ h hdepth hmid).bind _

private theorem entriesUpTo_refuses (hend : Ends (.ended eof)) {t : TypeExpr TypeRef}
    {w : List Symbol} (h : IsType t w) (hdepth : TypeExpr.maxDepth < t.depth)
    {entries : List Entry} {e : List Symbol} (he : Punctuated IsEntry entries e) :
    ∀ {n ts} (done : List Entry), entries.length < n →
      ((done ++ (entries ++ [Entry.context t])).map Entry.key).Nodup →
      Spells ts (e ++ .word "context" :: .mark .colon :: (w ++ left)) →
      Refuses (entriesUpTo n (Entries.of done)) eof ts := by
  induction he with
  | none =>
    intro n ts done hn hdiff hs
    obtain ⟨n, rfl⟩ := Nat.exists_eq_add_one.mpr (Nat.zero_lt_of_lt hn)
    have hnew : EntryKey.context ∉ done.map Entry.key := (nodup_map_before hdiff).2
    obtain ⟨mid, hmid, hread⟩ := entriesUpTo_value hend hnew hs n
    rw [Refuses, hread]
    exact ((typeUpTo_refuses hend _ h hdepth hmid).bind _).bind _
  | more ha _ ih =>
    intro n ts done hn hdiff hs
    obtain ⟨n, rfl⟩ := Nat.exists_eq_add_one.mpr (Nat.zero_lt_of_lt hn)
    obtain ⟨v, hentry, rfl⟩ := ha
    simp only [List.append_assoc, List.cons_append, List.nil_append] at hs
    obtain ⟨mid, hmid, hstep⟩ :=
      entriesUpTo_step hend hentry (nodup_map_before hdiff).2 hs ⟨nofun, nofun⟩ n
    obtain ⟨mid', heat, hmid'⟩ := eat_mark (.ended eof) hmid
    rw [List.cons_append, List.append_cons] at hdiff
    rw [Refuses, hstep, bind_of_ok heat]
    exact ih _ (by simpa using hn) hdiff hmid'

private theorem optionalAppliesTo_refuses (hend : Ends (.ended eof)) {t : TypeExpr TypeRef}
    {w : List Symbol} (h : IsType t w) (hdepth : TypeExpr.maxDepth < t.depth)
    {entries : List Entry} {e : List Symbol} (he : Punctuated IsEntry entries e)
    (hdiff : ((entries ++ [Entry.context t]).map Entry.key).Nodup)
    (hs : Spells ts (.word "appliesTo" :: .mark .leftBrace ::
      (e ++ .word "context" :: .mark .colon :: (w ++ left)))) :
    Refuses optionalAppliesTo eof ts := by
  obtain ⟨ts₁, hs₁, hclause⟩ := ifWord_of_spells (.ended eof) hs
  obtain ⟨brace, ts₂, hbrace, hs₂⟩ := expect_mark (.ended eof) hs₁
  have hlen : entries.length < ts₂.length + 1 := by
    have := he.length_le fun e u ⟨v, _, hu⟩ ↦ by simp [hu]
    have := hs₂.length_eq
    simp at this
    omega
  have hentries : Refuses (withSteps fun n ↦ entriesUpTo n {}) eof ts₂ :=
    entriesUpTo_refuses hend h hdepth he [] hlen hdiff hs₂
  rw [Refuses, optionalAppliesTo, hclause]
  exact (Refuses.after hbrace (hentries.bind _)).bind _

/-- A declaration with a type that nests too deep is refused. -/
theorem opening_refuses (ns : Option Name) {stop : TokenKind} (hend : Ends (.ended eof))
    (hstop : IsStop stop) {v w : List Symbol} (hv : IsNotes notes v) (h : IsOverdeep w)
    (hs : Spells ts (v ++ (w ++ left))) : Refuses (opening ns stop) eof ts := by
  -- The reader that the word at the front chooses refuses the declaration.
  have hrefuse {word : String} {p : Reader (List Item)} (hp : ReadsBody ns notes word p)
      (hu : front (w ++ left) = .word word)
      (hbody : ∀ {ts}, Spells ts (w ++ left) → Refuses p eof ts) :
      Refuses (opening ns stop) eof ts := by
    obtain ⟨mid, hmid, hopen⟩ := opening_of_word hend hstop hv hp hu hs
    rw [Refuses, hopen]
    exact (hbody hmid).bind _
  cases h with
  | @shape _ _ _ k m w hk hm hrec hdepth =>
    refine hrefuse .entity rfl fun {ts} hs ↦ ?_
    have hfront := isRecord_front hrec left
    simp only [List.cons_append, List.append_assoc] at hs
    obtain ⟨ts₁, hs₁, hread⟩ := entity_standard ns notes hend hk
      (isParents_front_ne hm (by decide) (by rw [hfront]; nofun)) hs
    obtain ⟨spelled, mid, -, hmid, hhead⟩ := standardEntities_head ns notes hend hk hm
      (by rw [hfront]; nofun) (by rw [hfront]; nofun) (by rw [hfront]; nofun) hs₁
    rw [Refuses, hread, hhead]
    exact (optionalShape_refuses hend hrec hdepth hmid).bind _
  | @tags _ _ _ t k m s w hk hm hsh ht hdepth =>
    refine hrefuse .entity rfl fun {ts} hs ↦ ?_
    have hfront {x} (heq : x ≠ .mark .equals) (hbrace : x ≠ .mark .leftBrace)
        (htags : .word "tags" ≠ x) : front (s ++ .word "tags" :: (w ++ left)) ≠ x :=
      isShape_front_ne hsh heq hbrace htags
    simp only [List.cons_append, List.append_assoc] at hs
    obtain ⟨ts₁, hs₁, hread⟩ := entity_standard ns notes hend hk
      (isParents_front_ne hm (by decide) (hfront nofun nofun (by decide))) hs
    obtain ⟨spelled, ts₂, -, hs₂, hhead⟩ := standardEntities_head ns notes hend hk hm
      (hfront nofun nofun nofun) (hfront nofun nofun (by decide)) (hfront nofun nofun nofun) hs₁
    obtain ⟨shape, mid, hshape, -, hmid⟩ :=
      optionalShape_recognizes.complete hend hs₂ hsh ⟨nofun, nofun⟩
    rw [Refuses, hread, hhead]
    exact Refuses.after hshape ((optionalTags_refuses hend ht hdepth hmid).bind _)
  | @context _ _ _ t k m e w hk hm he hdiff ht hdepth =>
    refine hrefuse .action rfl fun {ts} hs ↦ ?_
    simp only [List.cons_append, List.append_assoc] at hs
    obtain ⟨spelled, mid, -, hmid, hhead⟩ :=
      action_head ns notes hend hk hm (by simp) (by simp) (by simp) hs
    rw [Refuses, hhead]
    exact (optionalAppliesTo_refuses hend ht hdepth he hdiff hmid).bind _
  | @commonType t w key ht hdepth =>
    refine hrefuse .commonType rfl fun {ts} hs ↦ ?_
    obtain ⟨word, ts₁, hword, hs₁⟩ := expectWord_of_spells (.ended eof) hs
    obtain ⟨⟨key, span⟩, ts₂, hkey, -, hs₂⟩ := identifier_of_spells hend hs₁
    obtain ⟨equals, mid, hequals, hmid⟩ := expect_mark (.ended eof) hs₂
    refine Refuses.after hword (Refuses.after hkey (Refuses.after hequals ?_))
    exact (typeUpTo_refuses hend _ ht hdepth hmid).bind _

/-! ### Sequences of declarations -/

/-- Declarations in a namespace up to a type that nests too deep, with what is stated before the
declaration of that type. -/
inductive Overruns : Option Name → List Statement → List Symbol → Prop where
  | body {ns notes v w} : IsNotes notes v → IsOverdeep w → Overruns ns [] (v ++ w)
  | block {ns n notes ss u v w} : IsNotes notes u → IsPath n v →
      Overruns (some (blockName ns n)) ss w →
      Overruns ns (.block (blockName ns n) notes :: ss)
        (u ++ .word "namespace" :: v ++ .mark .leftBrace :: w)
  | more {ns ss rest u v} : IsDeclaration ns ss u → Overruns ns rest v →
      Overruns ns (ss ++ rest) (u ++ v)

/-- Declarations may stand before others. -/
theorem Overruns.append {ss rest : List Statement} {u v : List Symbol} :
    IsDeclarations ns ss u → Overruns ns rest v → Overruns ns (ss ++ rest) (u ++ v)
  | .none, h => h
  | .more hd hs, h => by
    simpa [List.append_assoc] using Overruns.more hd (Overruns.append hs h)

/-- Declarations are read up to the type that nests too deep, which is refused. -/
theorem declarations_refuses (hend : Ends (.ended eof)) {ss : List Statement} {w : List Symbol}
    (h : Overruns ns ss w) : ∀ {n stop ts left}, IsStop stop → Spells ts (w ++ left) →
      ts.length < n → ∃ items span,
        declarations (.ended eof) n ns stop ts = ⟨items, .error ⟨.tooDeep, span⟩⟩ ∧
        items.map Item.statement = ss := by
  induction h with
  | @body ns notes v w hv hw =>
    intro n stop ts left hstop hs hn
    obtain ⟨n, rfl⟩ := Nat.exists_eq_add_one.mpr (Nat.zero_lt_of_lt hn)
    rw [List.append_assoc] at hs
    obtain ⟨span, hopen⟩ := opening_refuses ns hend hstop hv hw hs
    refine ⟨[], span, ?_, rfl⟩
    simp only [declarations, hopen]
  | @block ns n' notes ss u v w hv hw hinner ih =>
    intro n stop ts left hstop hs hn
    obtain ⟨n, rfl⟩ := Nat.exists_eq_add_one.mpr (Nat.zero_lt_of_lt hn)
    simp only [List.append_assoc, List.cons_append] at hs
    obtain ⟨header, ts₁, hopen, hs₁⟩ := opening_block ns hend hstop hv hw hs
    obtain ⟨ts₂, hbrace, hs₂⟩ := skip_mark (.ended eof) hs₁
    have hlen : ts₂.length < n := by
      have := hs.length_eq
      have := hs₂.length_eq
      simp only [List.length_append, List.length_cons] at *
      omega
    obtain ⟨items, span, hread, rfl⟩ := ih (.inr rfl) hs₂ hlen
    refine ⟨.block (blockName ns n') notes header :: items, span, ?_, rfl⟩
    simp only [declarations, hopen, hbrace, hread, Progress.andThen, Progress.after,
      List.nil_append, List.cons_append]
  | more hdecl _ ih =>
    intro n stop ts left hstop hs hn
    obtain ⟨n, rfl⟩ := Nat.exists_eq_add_one.mpr (Nat.zero_lt_of_lt hn)
    rw [List.append_assoc] at hs
    obtain ⟨items, mid, hstep, rfl, hmid, hlen⟩ :=
      declarations_more hend (declarations_complete hend n) hstop hdecl hs hn
    obtain ⟨more, span, hread, rfl⟩ := ih hstop hmid hlen
    refine ⟨items ++ more, span, ?_, by simp⟩
    rw [hstep, hread]
    rfl

end PolicySchema.Text.Grammar
