import PolicySchema.Proofs.Text.NameRecognition

/-!
# Reading types

Types are recognized by their reader. A type is read within the sets and records that may still
open, so the bound on its depth is part of what is recognized.
-/

namespace PolicySchema.Text.Grammar

open Reader Syntax

variable {around : Surroundings} {ts rest : List Token} {u left : List Symbol}

/-! ### Records -/

/-- A symbol that cannot go on with a type that stands before it. -/
def EndsType (s : Symbol) : Prop := s ≠ .mark .doubleColon ∧ s ≠ .mark .leftAngle

/-- The types inside a set or a record are recognized up to a bound on their depth, and they can be
read exactly if the bound leaves room for them. -/
structure ReadsInner (inner? : Option (Reader (TypeExpr TypeRef))) (bound : Nat) : Prop where
  recognizes : ∀ inner, inner? = some inner →
    Recognizes inner id (fun t u ↦ IsType t u ∧ t.depth < bound) EndsType
  room : 0 < bound ↔ ∃ inner, inner? = some inner

/-- Notes are nothing or begin with their mark. -/
theorem isNotes_front {notes : Annotations} {w : List Symbol} (h : IsNotes notes w) :
    w = [] ∨ ∃ v, w = .mark .at :: v := by
  cases h with
  | listed hall _ =>
    cases hall with
    | none => exact .inl rfl
    | more ha _ =>
      cases ha
      exact .inr ⟨_, rfl⟩

/-- A key is one symbol, which is no mark. -/
theorem isKey_symbol {key : String} {w : List Symbol} (h : IsKey key w) :
    ∃ s, w = [s] ∧ ∀ m, s ≠ .mark m := by
  cases h <;> exact ⟨_, rfl, nofun⟩

/-- An attribute is its annotations and its key, and then maybe a question mark, a colon and its
type. -/
theorem isAttribute_iff {a : String × Attribute TypeRef} {w : List Symbol} :
    IsAttribute a w ↔ ∃ u v q x, w = u ++ (v ++ (q ++ .mark .colon :: x)) ∧
      IsNotes a.2.annotations u ∧ IsKey a.1 v ∧
      q = (if a.2.required then [] else [.mark .question]) ∧ IsType a.2.type x := by
  constructor
  · rintro (⟨hu, hv, hx⟩ | ⟨hu, hv, hx⟩)
    · exact ⟨_, _, _, _, by simp, hu, hv, rfl, hx⟩
    · exact ⟨_, _, [.mark .question], _, by simp, hu, hv, rfl, hx⟩
  · obtain ⟨key, type, required, notes⟩ := a
    rintro ⟨u, v, q, x, rfl, hu, hv, rfl, hx⟩
    cases required
    · simpa using IsAttribute.optional hu hv hx
    · simpa using IsAttribute.required hu hv hx

/-- An attribute does not begin with a closing brace. -/
theorem isAttribute_front {a : String × Attribute TypeRef} {w : List Symbol}
    (h : IsAttribute a w) (v : List Symbol) : front (w ++ v) ≠ .mark .rightBrace := by
  obtain ⟨u, k, q, x, rfl, hu, hk, _⟩ := isAttribute_iff.mp h
  obtain ⟨s, rfl, hs⟩ := isKey_symbol hk
  rcases isNotes_front hu with rfl | ⟨u, rfl⟩
  · exact hs _
  · nofun

/-- An attribute is written with at least one symbol. -/
theorem isAttribute_ne_nil {a : String × Attribute TypeRef} {w : List Symbol}
    (h : IsAttribute a w) : w ≠ [] := by
  obtain ⟨u, k, q, x, rfl, _⟩ := isAttribute_iff.mp h
  simp

section Records

variable {inner : Reader (TypeExpr TypeRef)} {Q : TypeExpr TypeRef → Prop}

private theorem attributesUpTo_succ_shows
    (hp : Recognizes inner id (fun t u ↦ IsType t u ∧ Q t) EndsType) (hend : Ends around)
    {n : Nat} {done : List (String × Attribute TypeRef)} {all : Table String (Attribute TypeRef)}
    (hd : (done.map Prod.fst).Nodup) (hs : Spells ts u)
    (h : attributesUpTo inner (n + 1) (Table.ofList done) around ts = .ok (all, rest)) :
    (all = Table.ofList done ∧ rest = ts) ∨
      ∃ a used left mid, u = used ++ left ∧ Spells mid left ∧ IsAttribute a used ∧ Q a.2.type ∧
        a.1 ∉ done.map Prod.fst ∧
        (eat .comma >>= fun more ↦
          if more then attributesUpTo inner n (Table.ofList (done ++ [a]))
          else pure (Table.ofList (done ++ [a]))) around mid = .ok (all, rest) := by
  rcases ifMark_shows hend hs h with ⟨-, h⟩ | ⟨-, h⟩
  · obtain ⟨rfl, rfl⟩ := pure_eq_ok.mp h
    exact .inl ⟨rfl, rfl⟩
  · rw [bind_eq_ok] at h
    obtain ⟨notes, ts₂, hnotes, h⟩ := h
    obtain ⟨a, u, rfl, hs₂, ha⟩ := annotations_recognizes.sound hend hs hnotes
    rw [bind_eq_ok] at h
    obtain ⟨⟨key, span⟩, ts₃, hkey, h⟩ := h
    obtain ⟨k, u, rfl, hs₃, hk⟩ := attributeKey_recognizes.sound hend hs₂ hkey
    dsimp only at h
    rw [bind_eq_ok] at h
    obtain ⟨optional, ts₄, hopt, h⟩ := h
    obtain ⟨q, u, rfl, hs₄, hq⟩ : ∃ q u', u = q ++ u' ∧ Spells ts₄ u' ∧
        q = if !optional then [] else [.mark .question] := by
      rcases eat_shows hend hs₃ hopt with ⟨rfl, u, rfl, hs₄⟩ | ⟨rfl, rfl, _⟩
      · exact ⟨[.mark .question], u, rfl, hs₄, rfl⟩
      · exact ⟨[], u, rfl, hs₃, rfl⟩
    rw [bind_eq_ok] at h
    obtain ⟨colon, ts₅, hcolon, h⟩ := h
    obtain ⟨u, rfl, hs₅⟩ := expect_mark_shows hend hs₄ hcolon
    rw [bind_eq_ok] at h
    obtain ⟨type, ts₆, htype, h⟩ := h
    obtain ⟨x, u, rfl, hs₆, hx, hQ⟩ := hp.sound hend hs₅ htype
    split at h
    · exact absurd h fail_ne_ok
    · next hnew =>
      rw [Table.contains_ofList hd] at hnew
      rw [← Table.ofList_concat] at h
      have hattr : IsAttribute (key, ⟨type, !optional, notes⟩)
          (a ++ (k ++ (q ++ .mark .colon :: x))) :=
        isAttribute_iff.mpr ⟨a, k, q, x, rfl, ha, hk, hq, hx⟩
      exact .inr ⟨(key, ⟨type, !optional, notes⟩), _, u, ts₆, by simp, hs₆, hattr, hQ, hnew, h⟩

private theorem attributesUpTo_sound
    (hp : Recognizes inner id (fun t u ↦ IsType t u ∧ Q t) EndsType) (hend : Ends around)
    (n : Nat) : ∀ (done : List (String × Attribute TypeRef)) {ts u all rest},
      (done.map Prod.fst).Nodup → Spells ts u →
      attributesUpTo inner n (Table.ofList done) around ts = .ok (all, rest) →
      ∃ attributes used left, u = used ++ left ∧ Spells rest left ∧
        Trailing IsAttribute attributes used ∧ ((done ++ attributes).map Prod.fst).Nodup ∧
        all = Table.ofList (done ++ attributes) ∧ ∀ a ∈ attributes, Q a.2.type := by
  induction n with
  | zero =>
    intro done ts u all rest hd hs h
    obtain ⟨rfl, rfl⟩ := pure_eq_ok.mp h
    exact ⟨[], [], u, rfl, hs, .none, by simpa using hd, by simp, by simp⟩
  | succ n ih =>
    intro done ts u all rest hd hs h
    rcases attributesUpTo_succ_shows hp hend hd hs h with
      ⟨rfl, rfl⟩ | ⟨a, w, v, mid, rfl, hmid, ha, hQ, hnew, h⟩
    · exact ⟨[], [], u, rfl, hs, .none, by simpa using hd, by simp, by simp⟩
    · have hd' := nodup_map_concat hd hnew
      rw [bind_eq_ok] at h
      obtain ⟨more, ts₁, hmore, h⟩ := h
      rcases eat_shows hend hmid hmore with ⟨rfl, v, rfl, hs₁⟩ | ⟨rfl, rfl, _⟩
      · rw [if_pos rfl] at h
        obtain ⟨attributes, used, left, rfl, hrest, hall, hdiff, rfl, hQs⟩ := ih _ hd' hs₁ h
        rw [List.append_assoc] at hdiff
        refine ⟨a :: attributes, _, left, by simp, hrest, .more ha hall, hdiff, by simp, ?_⟩
        rintro b (_ | ⟨_, hb⟩)
        · exact hQ
        · exact hQs b hb
      · obtain ⟨rfl, rfl⟩ := pure_eq_ok.mp h
        exact ⟨[a], w, v, rfl, hmid, .last ha, hd', rfl, by simpa using hQ⟩

/-- Before an attribute, one step comes to its type, and goes on with what is read there. -/
theorem attributesUpTo_type (inner : Reader (TypeExpr TypeRef)) {eof : Token}
    (hend : Ends (.ended eof)) {a : String × Attribute TypeRef} {w : List Symbol}
    (ha : IsAttribute a w) (hs : Spells ts (w ++ left)) (n : Nat)
    (earlier : Table String (Attribute TypeRef)) :
    ∃ span x mid, IsType a.2.type x ∧ Spells mid (x ++ left) ∧
      attributesUpTo inner (n + 1) earlier (.ended eof) ts =
        (inner >>= fun type ↦
          if earlier.contains a.1 then fail (.duplicate .attribute a.1) span
          else eat .comma >>= fun more ↦
            if more then
              attributesUpTo inner n (earlier.insert a.1 ⟨type, a.2.required, a.2.annotations⟩)
            else pure (earlier.insert a.1 ⟨type, a.2.required, a.2.annotations⟩)) (.ended eof)
          mid := by
  have hfront := isAttribute_front ha left
  obtain ⟨key, type, required, notes⟩ := a
  obtain ⟨u, k, q, x, rfl, hu, hk, hq, hx⟩ := isAttribute_iff.mp ha
  simp only [List.append_assoc, List.cons_append] at hs hfront
  obtain ⟨s, rfl, hmark⟩ := isKey_symbol hk
  obtain ⟨_, ts₂, hnotes, rfl, hs₂⟩ :=
    annotations_recognizes.complete hend hs hu ⟨hmark _, hmark _⟩
  obtain ⟨⟨key, span⟩, ts₃, hkey, rfl, hs₃⟩ :=
    attributeKey_recognizes.complete hend hs₂ hk trivial
  obtain ⟨ts₄, hopt, hs₄⟩ : ∃ ts₄, eat .question (.ended eof) ts₃ = .ok (!required, ts₄) ∧
      Spells ts₄ (.mark .colon :: (x ++ left)) := by
    cases required with
    | true =>
      rw [hq] at hs₃
      exact ⟨ts₃, eat_other hend hs₃ (by simp [front]), hs₃⟩
    | false =>
      rw [hq] at hs₃
      exact eat_mark (.ended eof) hs₃
  obtain ⟨colon, ts₅, hcolon, hs₅⟩ := expect_mark (.ended eof) hs₄
  refine ⟨span, x, ts₅, hx, hs₅, ?_⟩
  rw [attributesUpTo, ifMark_other hend hs hfront, bind_of_ok hnotes, bind_of_ok hkey]
  dsimp only
  rw [bind_of_ok hopt, bind_of_ok hcolon, Bool.not_not]
  rfl

/-- Before an attribute with a new key, one step reads the attribute. -/
theorem attributesUpTo_step
    (hp : Recognizes inner id (fun t u ↦ IsType t u ∧ Q t) EndsType) {eof : Token}
    (hend : Ends (.ended eof)) {a : String × Attribute TypeRef} {w : List Symbol}
    (ha : IsAttribute a w) (hQ : Q a.2.type) {done : List (String × Attribute TypeRef)}
    (hd : (done.map Prod.fst).Nodup) (hnew : a.1 ∉ done.map Prod.fst)
    (hs : Spells ts (w ++ left)) (hf : EndsType (front left)) (n : Nat) :
    ∃ mid, Spells mid left ∧ attributesUpTo inner (n + 1) (Table.ofList done) (.ended eof) ts =
      (eat .comma >>= fun more ↦
        if more then attributesUpTo inner n (Table.ofList (done ++ [a]))
        else pure (Table.ofList (done ++ [a]))) (.ended eof) mid := by
  obtain ⟨span, x, ts₁, hx, hs₁, hread⟩ :=
    attributesUpTo_type inner hend ha hs n (Table.ofList done)
  obtain ⟨_, mid, htype, rfl, hmid⟩ := hp.complete hend hs₁ ⟨hx, hQ⟩ hf
  have hkeep : ¬ (Table.ofList done).contains a.1 = true := by
    rw [Table.contains_ofList hd]
    exact hnew
  refine ⟨mid, hmid, ?_⟩
  rw [hread, bind_of_ok htype, if_neg hkeep, Table.ofList_concat]

private theorem attributesUpTo_complete
    (hp : Recognizes inner id (fun t u ↦ IsType t u ∧ Q t) EndsType) {eof : Token}
    (hend : Ends (.ended eof)) (hclose : front left = .mark .rightBrace)
    {attributes : List (String × Attribute TypeRef)} {w : List Symbol}
    (h : Trailing IsAttribute attributes w) :
    ∀ {n ts} (done : List (String × Attribute TypeRef)), attributes.length ≤ n →
      (∀ a ∈ attributes, Q a.2.type) → ((done ++ attributes).map Prod.fst).Nodup →
      Spells ts (w ++ left) →
      ∃ rest, attributesUpTo inner n (Table.ofList done) (.ended eof) ts =
        .ok (Table.ofList (done ++ attributes), rest) ∧ Spells rest left := by
  induction h with
  | none =>
    intro n ts done _ _ _ hs
    refine ⟨ts, ?_, hs⟩
    rw [List.append_nil]
    cases n with
    | zero => rfl
    | succ n => exact ifMark_of_front hend hs hclose
  | last ha =>
    intro n ts done hn hQ hdiff hs
    obtain ⟨n, rfl⟩ : ∃ m, n = m + 1 := ⟨n - 1, by simp at hn; omega⟩
    obtain ⟨mid, hmid, hstep⟩ := attributesUpTo_step hp hend ha (hQ _ List.mem_cons_self)
      (nodup_map_before hdiff).1 (nodup_map_before hdiff).2 hs
      (by rw [hclose]; exact ⟨nofun, nofun⟩) n
    refine ⟨mid, ?_, hmid⟩
    rw [hstep, bind_of_ok (eat_other hend hmid (by rw [hclose]; nofun))]
    rfl
  | more ha _ ih =>
    intro n ts done hn hQ hdiff hs
    obtain ⟨n, rfl⟩ : ∃ m, n = m + 1 := ⟨n - 1, by simp at hn; omega⟩
    rw [List.append_assoc] at hs
    obtain ⟨mid, hmid, hstep⟩ := attributesUpTo_step hp hend ha (hQ _ List.mem_cons_self)
      (nodup_map_before hdiff).1 (nodup_map_before hdiff).2 hs ⟨nofun, nofun⟩ n
    obtain ⟨mid', he, hmid'⟩ := eat_mark (.ended eof) hmid
    rw [List.append_cons] at hdiff ⊢
    obtain ⟨rest, hall, hrest⟩ := ih _ (by simpa using hn)
      (fun b hb ↦ hQ b (List.mem_cons_of_mem _ hb)) hdiff hmid'
    refine ⟨rest, ?_, hrest⟩
    rw [hstep, bind_of_ok he, if_pos rfl]
    exact hall

end Records

private theorem mem_entries_ofList {attributes : List (String × Attribute TypeRef)}
    (h : (attributes.map Prod.fst).Nodup) {a : String × Attribute TypeRef} :
    a ∈ (Table.ofList attributes).entries ↔ a ∈ attributes := by
  rw [← Table.find?_eq_some_iff (k := a.1) (v := a.2), Table.find?_ofList_eq_some_iff h]

/-- A record is less deep than a bound exactly when its attributes are. -/
theorem depth_lt_iff (f : Fields TypeRef) {n : Nat} :
    f.depth < n ↔ 0 < n ∧ ∀ a ∈ f.toList, a.2.type.depth < n := by
  cases f with
  | nil => simp [Fields.depth, Fields.toList]
  | cons _ _ _ _ rest =>
    simp only [Fields.depth, Fields.toList, List.forall_mem_cons, Nat.max_lt, depth_lt_iff rest]
    grind

/-- A record of distinct attributes is less deep than a positive bound when each of their types
is. -/
theorem depth_ofTable_lt_iff {attributes : List (String × Attribute TypeRef)}
    (h : (attributes.map Prod.fst).Nodup) {n : Nat} :
    (Fields.ofTable (Table.ofList attributes)).depth < n ↔
      0 < n ∧ ∀ a ∈ attributes, a.2.type.depth < n := by
  simp only [depth_lt_iff, Fields.ofTable, Fields.toList_ofList, mem_entries_ofList h]

/-- A record begins with a brace. -/
theorem isRecord_front {fields : Fields TypeRef} {w : List Symbol} (h : IsRecord fields w)
    (v : List Symbol) : front (w ++ v) = .mark .leftBrace := by
  cases h
  rfl

/-- Records without annotations are recognized up to a bound on the depth of what they hold. -/
theorem recordLevel_recognizes {inner? : Option (Reader (TypeExpr TypeRef))} {bound : Nat}
    (hinner : ReadsInner inner? bound) :
    Recognizes (recordLevel inner?) id
      (fun r u ↦ IsRecord r.fields u ∧ r.annotations = ∅ ∧ r.fields.depth < bound)
      fun _ ↦ True where
  sound := by
    intro around ts b rest u hend hs h
    rw [recordLevel, bind_eq_ok] at h
    obtain ⟨brace, ts₁, hbrace, h⟩ := h
    obtain ⟨u, rfl, hs₁⟩ := expect_mark_shows hend hs hbrace
    cases inner? with
    | none => exact absurd h fail_ne_ok
    | some inner =>
      obtain ⟨fields, ts₂, hfields, h⟩ := bind_eq_ok.mp (of_withinStack h)
      obtain ⟨attributes, used, u, rfl, hs₂, hall, hdiff, rfl, hdepth⟩ :=
        attributesUpTo_sound (hinner.recognizes inner rfl) hend _ [] List.nodup_nil hs₁ hfields
      rw [bind_eq_ok] at h
      obtain ⟨close, ts₃, hclose, h⟩ := h
      obtain ⟨left, rfl, hs₃⟩ := expect_mark_shows hend hs₂ hclose
      obtain ⟨rfl, rfl⟩ := pure_eq_ok.mp h
      refine ⟨_, left, ?_, hs₃, .braces hall hdiff, rfl, ?_⟩
      · simp
      · exact (depth_ofTable_lt_iff hdiff).mpr ⟨hinner.room.mpr ⟨inner, rfl⟩, hdepth⟩
  complete := by
    rintro eof ts ⟨fields, notes⟩ w left hend hs ⟨⟨hall, hdiff⟩, rfl, hdepth⟩ -
    rename_i attributes u
    obtain ⟨hpos, hdepth⟩ := (depth_ofTable_lt_iff hdiff).mp hdepth
    obtain ⟨inner, rfl⟩ := hinner.room.mp hpos
    rw [List.append_assoc] at hs
    obtain ⟨brace, ts₁, hbrace, hs₁⟩ := expect_mark (.ended eof) hs
    have hlen : attributes.length ≤ ts₁.length + 1 := by
      have := hall.length_le (fun a u ha hu ↦ isAttribute_ne_nil ha hu)
      have := hs₁.length_eq
      simp at this
      omega
    obtain ⟨ts₂, hfields, hs₂⟩ := attributesUpTo_complete (hinner.recognizes inner rfl) hend
      (by rfl) hall [] hlen hdepth hdiff hs₁
    obtain ⟨close, rest, hclose, hrest⟩ := expect_mark (.ended eof) hs₂
    refine ⟨_, rest, ?_, rfl, hrest⟩
    rw [recordLevel, bind_of_ok hbrace]
    dsimp only
    have hread : withSteps (fun n ↦ attributesUpTo inner n ∅) (.ended eof) ts₁ =
      .ok (Table.ofList ([] ++ attributes), ts₂) := hfields
    rw [withinStack_ended, bind_of_ok hread, bind_of_ok hclose]
    rfl

/-! ### Types -/

private theorem barePrimitive?_eq_some_iff {n : Name} {p : Primitive} :
    barePrimitive? n = some p ↔ n.isBare = true ∧ n.basename.text = p.text := by
  unfold barePrimitive?
  split
  · next h =>
    simp only [h, true_and]
    constructor
    · intro hp
      have hm := List.find?_some hp
      simp only [decide_eq_true_eq] at hm
      exact hm.symm
    · intro hp
      rw [hp]
      cases p <;> decide
  · next h => simp [h]

private theorem isBare_of_builtin? {n : Name} {id : Identifier} (h : n.builtin? = some id) :
    n.isBare = false := by
  unfold Name.builtin? at h
  split at h
  · next hpath => simp [Name.isBare, hpath]
  · cases h

private theorem ofName?_of_isKnownExtension {text : String} (h : isKnownExtension text = true) :
    Primitive.ofName? text = none := by
  simp only [isKnownExtension, knownExtensions, List.contains_iff_mem, List.mem_cons,
    List.not_mem_nil, or_false] at h
  rcases h with rfl | rfl | rfl | rfl <;> decide

/-- A name is read as the type that it means. -/
theorem typeOfName_eq_ok_iff {n : Name} {span : Span} {r : TypeRef} :
    typeOfName n span = .ok r ↔ Means n r := by
  have hbare : barePrimitive? n = none ↔
      ∀ p : Primitive, n.isBare = true → n.basename.text ≠ p.text := by
    simp [Option.eq_none_iff_forall_ne_some, barePrimitive?_eq_some_iff]
  have hqualified {id} (h : n.builtin? = some id) : barePrimitive? n = none :=
    hbare.mpr fun p hn ↦ by simp [isBare_of_builtin? h] at hn
  constructor
  · intro h
    unfold typeOfName at h
    split at h
    · next p hp =>
      cases h
      exact .primitive (barePrimitive?_eq_some_iff.mp hp).1 (barePrimitive?_eq_some_iff.mp hp).2
    · next hnone =>
      split at h
      · next hb =>
        cases h
        exact .other (hbare.mp hnone) hb
      · next id hb =>
        split at h
        · next p hp =>
          cases h
          exact .builtinPrimitive hb hp
        · split at h
          · next hk =>
            cases h
            exact .extension hb hk
          · cases h
  · intro h
    unfold typeOfName
    cases h with
    | primitive hn hp => rw [barePrimitive?_eq_some_iff.mpr ⟨hn, hp⟩]
    | builtinPrimitive hb hp =>
      simp only [hqualified hb, hb, hp]
    | extension hb hk =>
      simp only [hqualified hb, hb, ofName?_of_isKnownExtension hk, hk, if_true]
    | other hn hb =>
      simp only [hbare.mpr hn, hb]

private theorem opensSet_shows (hend : Ends around) (hs : Spells ts u) {text : String} {b : Bool}
    (hu : front u = .word text) (h : opensSet around ts = .ok (b, rest)) :
    rest = ts ∧ (b = true → u = .word "Set" :: .mark .leftAngle :: u.tail.tail) := by
  rw [opensSet, bind_eq_ok] at h
  obtain ⟨t, ts₁, hpeek, h⟩ := h
  obtain ⟨rfl, ht⟩ := peek_shows hend hs hpeek
  rw [hu] at ht
  cases ht
  split at h
  · next htext =>
    rw [bind_eq_ok] at h
    obtain ⟨second, ts₂, hsecond, h⟩ := h
    obtain ⟨rfl, ht₂⟩ := peekSecond_shows hend hs hsecond
    obtain ⟨rfl, rfl⟩ := pure_eq_ok.mp h
    refine ⟨rfl, fun hkind ↦ ?_⟩
    rw [decide_eq_true_eq, ht₂.kind_mark_iff] at hkind
    rw [← eq_cons_of_front hkind nofun, ← htext]
    exact eq_cons_of_front hu nofun
  · obtain ⟨rfl, rfl⟩ := pure_eq_ok.mp h
    exact ⟨rfl, nofun⟩

private theorem opensSet_of_spells {eof : Token} (hend : Ends (.ended eof)) (hs : Spells ts u)
    {text : String} (hu : front u = .word text) :
    opensSet (.ended eof) ts =
      .ok (decide (text = "Set" ∧ front u.tail = .mark .leftAngle), ts) := by
  obtain ⟨t, hpeek, ht⟩ := peek_of_spells hend hs
  obtain ⟨second, hsecond, ht₂⟩ := peekSecond_of_spells hend hs
  rw [hu] at ht
  cases ht
  rw [opensSet, bind_of_ok hpeek]
  by_cases htext : text = "Set"
  · rw [if_pos htext, bind_of_ok hsecond]
    simp only [htext, true_and, ← ht₂.kind_mark_iff]
    rfl
  · rw [if_neg htext]
    simp only [htext, false_and, decide_false]
    rfl

/-- A name begins with a word, which is all of it or stands before a separator. -/
theorem isPath_symbols {n : Name} {w : List Symbol} (h : IsPath n w) :
    ∃ id : Identifier, ∃ v, w = .word id.text :: v ∧ (v = [] ∨ front v = .mark .doubleColon) := by
  obtain ⟨id, ids, _, rfl⟩ := isPath_iff.mp h
  refine ⟨id, links ids, rfl, ?_⟩
  cases ids with
  | nil => exact .inl rfl
  | cons next ids => exact .inr rfl

private theorem namedType_recognizes : Recognizes namedType id
    (fun t u ↦ ∃ n r, t = .leaf r ∧ IsPath n u ∧ Means n r) (· ≠ .mark .doubleColon) where
  sound := by
    intro around ts b rest u hend hs h
    rw [namedType, bind_eq_ok] at h
    obtain ⟨⟨n, span⟩, mid, hn, h⟩ := h
    obtain ⟨used, left, rfl, hmid, hpath⟩ := name_recognizes.sound hend hs hn
    dsimp only at h
    cases hr : typeOfName n span with
    | ok r =>
      rw [hr] at h
      obtain ⟨rfl, rfl⟩ := pure_eq_ok.mp h
      exact ⟨used, left, rfl, hmid, n, r, rfl, hpath, typeOfName_eq_ok_iff.mp hr⟩
    | error f =>
      rw [hr] at h
      exact absurd h fail_ne_ok
  complete := by
    rintro eof ts _ w left hend hs ⟨n, r, rfl, hpath, hmeans⟩ hf
    obtain ⟨⟨n, span⟩, rest, hn, rfl, hrest⟩ := name_recognizes.complete hend hs hpath hf
    refine ⟨.leaf r, rest, ?_, rfl, hrest⟩
    rw [namedType, bind_of_ok hn]
    dsimp only
    rw [typeOfName_eq_ok_iff.mpr hmeans]
    rfl

private theorem setLevel_sound {inner? : Option (Reader (TypeExpr TypeRef))} {bound : Nat}
    (hinner : ReadsInner inner? bound) (hend : Ends around)
    (hs : Spells ts (.word "Set" :: .mark .leftAngle :: u)) {type : TypeExpr TypeRef}
    (h : setLevel inner? around ts = .ok (type, rest)) :
    ∃ used left, .word "Set" :: .mark .leftAngle :: u = used ++ left ∧ Spells rest left ∧
      IsType type used ∧ type.depth ≤ bound := by
  cases hs with
  | cons _ hs =>
    cases hs with
    | cons _ hs =>
      rw [setLevel, bind_of_ok rfl, bind_of_ok rfl] at h
      cases inner? with
      | none => exact absurd h fail_ne_ok
      | some inner =>
        obtain ⟨element, ts₁, helement, h⟩ := bind_eq_ok.mp (of_withinStack h)
        obtain ⟨used, u, rfl, hs₁, htype, hdepth⟩ :=
          (hinner.recognizes inner rfl).sound hend hs helement
        rw [bind_eq_ok] at h
        obtain ⟨close, ts₂, hclose, h⟩ := h
        obtain ⟨left, rfl, hs₂⟩ := expect_mark_shows hend hs₁ hclose
        obtain ⟨rfl, rfl⟩ := pure_eq_ok.mp h
        exact ⟨_, left, by simp, hs₂, .set htype, hdepth⟩

private theorem setLevel_complete {inner? : Option (Reader (TypeExpr TypeRef))} {bound : Nat}
    (hinner : ReadsInner inner? bound) {eof : Token} (hend : Ends (.ended eof))
    {element : TypeExpr TypeRef} {w : List Symbol} (htype : IsType element w)
    (hdepth : element.depth < bound)
    (hs : Spells ts (.word "Set" :: .mark .leftAngle :: (w ++ .mark .rightAngle :: left))) :
    ∃ rest, setLevel inner? (.ended eof) ts = .ok (.set element, rest) ∧ Spells rest left := by
  obtain ⟨inner, rfl⟩ := hinner.room.mp (Nat.zero_lt_of_lt hdepth)
  cases hs with
  | cons _ hs =>
    cases hs with
    | cons _ hs =>
      obtain ⟨_, ts₁, helement, rfl, hs₁⟩ :=
        (hinner.recognizes inner rfl).complete hend hs ⟨htype, hdepth⟩ ⟨nofun, nofun⟩
      obtain ⟨close, rest, hclose, hrest⟩ := expect_mark (.ended eof) hs₁
      refine ⟨rest, ?_, hrest⟩
      rw [setLevel, bind_of_ok rfl, bind_of_ok rfl]
      dsimp only
      rw [withinStack_ended, bind_of_ok helement, bind_of_ok hclose]
      rfl

/-- A type that begins with a brace is read as a record. -/
theorem typeLevel_of_brace (inner? : Option (Reader (TypeExpr TypeRef))) {eof : Token}
    (hend : Ends (.ended eof)) (hs : Spells ts u) (hu : front u = .mark .leftBrace) :
    typeLevel inner? (.ended eof) ts =
      (recordLevel inner? >>= fun r ↦ pure r.toType) (.ended eof) ts := by
  obtain ⟨t, hpeek, ht⟩ := peek_of_spells hend hs
  have hkind : t.kind = .mark .leftBrace := by rw [ht.kind_mark_iff, hu]
  rw [typeLevel, bind_of_ok hpeek]
  simp only [hkind]

/-- A type that begins with a word is read as a set if that is what opens, and else as a name. -/
theorem typeLevel_of_word (inner? : Option (Reader (TypeExpr TypeRef))) {eof : Token}
    (hend : Ends (.ended eof)) (hs : Spells ts u) {text : String} (hu : front u = .word text) :
    typeLevel inner? (.ended eof) ts =
      (if text = "Set" ∧ front u.tail = .mark .leftAngle then setLevel inner? else namedType)
        (.ended eof) ts := by
  obtain ⟨t, hpeek, ht⟩ := peek_of_spells hend hs
  have hkind : t.kind = .word := by
    rw [hu] at ht
    cases ht
    rfl
  rw [typeLevel, bind_of_ok hpeek]
  simp only [hkind]
  rw [bind_of_ok (opensSet_of_spells hend hs hu)]
  simp only [decide_eq_true_eq]

private theorem typeLevel_shows {inner? : Option (Reader (TypeExpr TypeRef))}
    {b : TypeExpr TypeRef} (hend : Ends around) (hs : Spells ts u)
    (h : typeLevel inner? around ts = .ok (b, rest)) :
    (recordLevel inner? >>= fun r ↦ pure r.toType) around ts = .ok (b, rest) ∨
      (u = .word "Set" :: .mark .leftAngle :: u.tail.tail ∧
        setLevel inner? around ts = .ok (b, rest)) ∨
      namedType around ts = .ok (b, rest) := by
  rw [typeLevel, bind_eq_ok] at h
  obtain ⟨t, ts₁, hpeek, h⟩ := h
  obtain ⟨rfl, ht⟩ := peek_shows hend hs hpeek
  have hunexpected
      (h : (next >>= fun t ↦ unexpected t .typeExpr) around ts₁ = .ok (b, rest)) : False := by
    obtain ⟨_, _, _, h⟩ := bind_eq_ok.mp h
    exact unexpected_ne_ok h
  generalize hkind : t.kind = kind at h
  cases kind with
  | word =>
    dsimp only at h
    rw [bind_eq_ok] at h
    obtain ⟨opens, ts₂, hopens, h⟩ := h
    obtain ⟨rfl, hset⟩ := opensSet_shows hend hs (ht.kind_word_iff.mp hkind) hopens
    cases opens with
    | true => exact .inr (.inl ⟨hset rfl, h⟩)
    | false => exact .inr (.inr h)
  | mark m =>
    by_cases hm : m = .leftBrace
    · subst hm
      exact .inl h
    · cases m <;> first
        | exact absurd rfl hm
        | exact (hunexpected h).elim
  | literal => exact (hunexpected h).elim
  | endOfInput => exact (hunexpected h).elim

/-- Types are recognized up to a bound on their depth, if the types inside are. -/
theorem typeLevel_recognizes {inner? : Option (Reader (TypeExpr TypeRef))} {bound : Nat}
    (hinner : ReadsInner inner? bound) :
    Recognizes (typeLevel inner?) id (fun t u ↦ IsType t u ∧ t.depth ≤ bound) EndsType where
  sound := by
    intro around ts b rest u hend hs h
    rcases typeLevel_shows hend hs h with h | ⟨hset, h⟩ | h
    · rw [bind_eq_ok] at h
      obtain ⟨⟨fields, notes⟩, ts₁, hr, h⟩ := h
      obtain ⟨rfl, rfl⟩ := pure_eq_ok.mp h
      obtain ⟨used, left, rfl, hrest, hrec, hnotes, hdepth⟩ :=
        (recordLevel_recognizes hinner).sound hend hs hr
      obtain rfl : notes = ∅ := hnotes
      exact ⟨used, left, rfl, hrest, .record hrec, hdepth⟩
    · rw [hset] at hs ⊢
      exact setLevel_sound hinner hend hs h
    · obtain ⟨used, left, rfl, hrest, n, r, rfl, hpath, hmeans⟩ :=
        namedType_recognizes.sound hend hs h
      exact ⟨used, left, rfl, hrest, .named hpath hmeans, Nat.zero_le _⟩
  complete := by
    rintro eof ts _ w left hend hs ⟨htype, hdepth⟩ hf
    cases htype with
    | @record fields _ hrec =>
      obtain ⟨r, rest, hr, hfields, hrest⟩ :=
        (recordLevel_recognizes hinner).complete (a := ⟨fields, ∅⟩) hend hs ⟨hrec, rfl, hdepth⟩
          trivial
      refine ⟨r.toType, rest, ?_, congrArg RecordType.toType hfields, hrest⟩
      rw [typeLevel_of_brace inner? hend hs (isRecord_front hrec left)]
      exact bind_of_ok hr
    | @set element v helement =>
      rw [List.append_assoc] at hs
      obtain ⟨rest, hset, hrest⟩ := setLevel_complete hinner hend helement hdepth hs
      refine ⟨.set element, rest, ?_, rfl, hrest⟩
      rw [typeLevel_of_word inner? hend hs rfl, if_pos ⟨rfl, rfl⟩]
      exact hset
    | @named n r _ hpath hmeans =>
      obtain ⟨_, rest, hnamed, rfl, hrest⟩ :=
        namedType_recognizes.complete hend hs ⟨n, r, rfl, hpath, hmeans⟩ hf.1
      obtain ⟨first, v, rfl, hv⟩ := isPath_symbols hpath
      have hangle : front (v ++ left) ≠ .mark .leftAngle := by
        rcases hv with rfl | hv
        · exact hf.2
        · rw [eq_cons_of_front hv nofun]
          nofun
      refine ⟨.leaf r, rest, ?_, rfl, hrest⟩
      rw [typeLevel_of_word inner? hend hs rfl, if_neg (fun h ↦ hangle h.2)]
      exact hnamed

/-- Without a reader there is no room for types inside. -/
theorem readsInner_none : ReadsInner none 0 := ⟨nofun, by simp⟩

private theorem readsInner_of_recognizes {inner : Reader (TypeExpr TypeRef)} {n : Nat}
    (h : Recognizes inner id (fun t u ↦ IsType t u ∧ t.depth ≤ n) EndsType) :
    ReadsInner (some inner) (n + 1) := by
  refine ⟨?_, by simp⟩
  rintro _ ⟨⟩
  simpa only [Nat.lt_succ_iff] using h

/-- Types are recognized up to the depth that there is room for. -/
theorem typeUpTo_recognizes (n : Nat) :
    Recognizes (typeUpTo n) id (fun t u ↦ IsType t u ∧ t.depth ≤ n) EndsType := by
  induction n with
  | zero => exact typeLevel_recognizes readsInner_none
  | succ n ih => exact typeLevel_recognizes (readsInner_of_recognizes ih)

/-- With room for more sets and records, the types inside are recognized up to the depth that is
left. -/
theorem readsInner_typeUpTo (n : Nat) : ReadsInner (some (typeUpTo n)) (n + 1) :=
  readsInner_of_recognizes (typeUpTo_recognizes n)

/-- Types that nest no deeper than types may are recognized. -/
theorem typeExpr_recognizes : Recognizes typeExpr id
    (fun t u ↦ IsType t u ∧ t.depth ≤ TypeExpr.maxDepth) EndsType :=
  typeUpTo_recognizes TypeExpr.maxDepth

/-- Records that nest no deeper than types may are recognized. -/
theorem recordType_recognizes : Recognizes recordType id
    (fun r u ↦ IsRecord r.fields u ∧ r.annotations = ∅ ∧ r.fields.depth < TypeExpr.maxDepth)
    fun _ ↦ True :=
  recordLevel_recognizes (readsInner_typeUpTo (TypeExpr.maxDepth - 1))

end PolicySchema.Text.Grammar
