import PolicySchema.Proofs.Text.ActionRecognition

/-!
# Reading namespace blocks

Sequences of declarations are recognized, with the blocks in them. A sequence is followed by the
token that it stops at, and it is read in no more steps than there are tokens.
-/

namespace PolicySchema.Text.Grammar

open Reader Syntax

variable {around : Surroundings} {ts rest : List Token} {u left : List Symbol}
  {ns : Option Name} {stop : TokenKind}

/-! ### The start of a declaration -/

/-- What stands at the start of a sequence of declarations that is not at its end. -/
inductive IsOpening (ns : Option Name) : Opening → List Symbol → Prop where
  | block {n notes span v w} : IsNotes notes v → IsPath n w →
      IsOpening ns (.block (blockName ns n) notes span) (v ++ .word "namespace" :: w)
  | items {items w} : IsDeclaration ns (items.map Item.statement) w →
      IsOpening ns (.items items) w

/-- What is read at the start of a sequence is its end, or it opens the next declaration. -/
theorem opening_sound (hend : Ends around) (hs : Spells ts u) {o : Opening}
    (h : opening ns stop around ts = .ok (o, rest)) :
    (o = .done ∧ rest = ts ∧ ∃ t, t.kind = stop ∧ peek around ts = .ok (t, ts)) ∨
      ∃ used left, u = used ++ left ∧ Spells rest left ∧ IsOpening ns o used := by
  rw [opening, bind_eq_ok] at h
  obtain ⟨t, ts₁, hpeek, h⟩ := h
  obtain ⟨rfl, -⟩ := peek_shows hend hs hpeek
  split at h
  · next hkind =>
    obtain ⟨rfl, rfl⟩ := pure_eq_ok.mp h
    exact .inl ⟨rfl, rfl, t, hkind, hpeek⟩
  · right
    rw [bind_eq_ok] at h
    obtain ⟨notes, ts₂, hnotes, h⟩ := h
    obtain ⟨v, u, rfl, hs₂, hv⟩ := annotations_recognizes.sound hend hs hnotes
    -- The declaration of one kind after the annotations.
    have hbody {p : Reader (List Item)} {word : String}
        (hp : Recognizes p (List.map Item.statement)
          (fun ss w ↦ IsBody ns notes ss w ∧ front w = .word word) fun _ ↦ True)
        (h : (p >>= fun items ↦ pure (.items items)) around ts₂ = .ok (o, rest)) :
        ∃ used left, v ++ u = used ++ left ∧ Spells rest left ∧ IsOpening ns o used := by
      rw [bind_eq_ok] at h
      obtain ⟨items, ts₃, hitems, h⟩ := h
      obtain ⟨rfl, rfl⟩ := pure_eq_ok.mp h
      obtain ⟨w, left, rfl, hrest, hbody, _⟩ := hp.sound hend hs₂ hitems
      exact ⟨v ++ w, left, by simp, hrest, .items (.body hv hbody)⟩
    rw [bind_eq_ok] at h
    obtain ⟨t', ts₃, hpeek', h⟩ := h
    obtain ⟨rfl, -⟩ := peek_shows hend hs₂ hpeek'
    split at h
    · rw [blockHeader, bind_eq_ok] at h
      obtain ⟨word, ts₄, hword, h⟩ := h
      obtain ⟨u, rfl, hs₄⟩ := expectWord_shows hend hs₂ hword
      rw [bind_eq_ok] at h
      obtain ⟨⟨n, span⟩, ts₅, hn, h⟩ := h
      obtain ⟨rfl, rfl⟩ := pure_eq_ok.mp (of_withinStack h)
      obtain ⟨w, left, rfl, hs₅, hpath⟩ := name_recognizes.sound hend hs₄ hn
      refine ⟨v ++ .word "namespace" :: w, left, by simp, hs₅, ?_⟩
      cases ns with
      | none => exact .block hv hpath
      | some outer => exact .block hv hpath
    · split at h
      · exact hbody entity_recognizes h
      · split at h
        · exact hbody action_recognizes h
        · split at h
          · exact hbody commonType_recognizes h
          · obtain ⟨_, _, _, h⟩ := bind_eq_ok.mp h
            exact absurd h unexpected_ne_ok

/-- A kind that a sequence of declarations stops at. -/
def IsStop (stop : TokenKind) : Prop := stop = .endOfInput ∨ stop = .mark .rightBrace

private theorem kind_ne_stop (hstop : IsStop stop) {t : Token} (ht : Shows t (front u))
    (h : front u = .mark .at ∨ ∃ text, front u = .word text) : t.kind ≠ stop := by
  rintro rfl
  rcases hstop with hstop | hstop
  · rw [ht.kind_endOfInput_iff] at hstop
    simp [hstop] at h
  · rw [ht.kind_mark_iff] at hstop
    simp [hstop] at h

private theorem front_of_isNotes {notes : Annotations} {v : List Symbol} (hv : IsNotes notes v)
    {text : String} (hu : front u = .word text) :
    front (v ++ u) = .mark .at ∨ ∃ text, front (v ++ u) = .word text := by
  rcases isNotes_front hv with rfl | ⟨w, rfl⟩
  · exact .inr ⟨text, hu⟩
  · exact .inl rfl

/-- The header of a namespace block is read. -/
theorem opening_block (ns : Option Name) {eof : Token} (hend : Ends (.ended eof))
    (hstop : IsStop stop) {n : Name} {notes : Annotations} {v w : List Symbol}
    (hv : IsNotes notes v) (hw : IsPath n w)
    (hs : Spells ts (v ++ (.word "namespace" :: (w ++ .mark .leftBrace :: left)))) :
    ∃ span rest, opening ns stop (.ended eof) ts = .ok (.block (blockName ns n) notes span, rest) ∧
      Spells rest (.mark .leftBrace :: left) := by
  obtain ⟨t, hpeek, ht⟩ := peek_of_spells hend hs
  obtain ⟨_, ts₁, hnotes, rfl, hs₁⟩ :=
    annotations_recognizes.complete hend hs hv ⟨nofun, nofun⟩
  obtain ⟨t', hpeek', ht'⟩ := peek_of_spells hend hs₁
  obtain ⟨word, ts₂, hword, hs₂⟩ := expectWord_of_spells (.ended eof) hs₁
  obtain ⟨⟨n, span⟩, rest, hn, rfl, hrest⟩ := name_recognizes.complete hend hs₂ hw nofun
  refine ⟨span, rest, ?_, hrest⟩
  rw [opening, bind_of_ok hpeek, if_neg (kind_ne_stop hstop ht (front_of_isNotes hv rfl)),
    bind_of_ok hnotes, bind_of_ok hpeek', if_pos (ht'.isWord_iff.mpr rfl), blockHeader,
    bind_of_ok hword, bind_of_ok hn]
  cases ns <;> rfl

private theorem isBody_front {notes : Annotations} {ss : List Statement} {w : List Symbol}
    (h : IsBody ns notes ss w) :
    front w = .word "entity" ∨ front w = .word "action" ∨ front w = .word "type" := by
  cases h with
  | entity => exact .inl rfl
  | enum => exact .inl rfl
  | action => exact .inr (.inl rfl)
  | commonType => exact .inr (.inr rfl)

private theorem isBody_ne_nil {notes : Annotations} {ss : List Statement} {w : List Symbol}
    (h : IsBody ns notes ss w) : w ≠ [] := by
  rintro rfl
  simpa using isBody_front h

/-- The reader of the declarations that a word begins. -/
inductive ReadsBody (ns : Option Name) (notes : Annotations) :
    String → Reader (List Item) → Prop where
  | entity : ReadsBody ns notes "entity" (entity ns notes)
  | action : ReadsBody ns notes "action" (action ns notes)
  | commonType : ReadsBody ns notes "type" (commonType ns notes)

/-- After annotations, the word at the front chooses the reader of the declaration. -/
theorem opening_of_word {eof : Token} (hend : Ends (.ended eof)) (hstop : IsStop stop)
    {notes : Annotations} {v : List Symbol} (hv : IsNotes notes v) {word : String}
    {p : Reader (List Item)} (hp : ReadsBody ns notes word p) (hu : front u = .word word)
    (hs : Spells ts (v ++ u)) :
    ∃ mid, Spells mid u ∧ opening ns stop (.ended eof) ts =
      (p >>= fun items ↦ pure (.items items)) (.ended eof) mid := by
  obtain ⟨t, hpeek, ht⟩ := peek_of_spells hend hs
  obtain ⟨_, mid, hnotes, rfl, hmid⟩ := annotations_recognizes.complete hend hs hv
    (by rw [hu]; exact ⟨nofun, nofun⟩)
  obtain ⟨t', hpeek', ht'⟩ := peek_of_spells hend hmid
  have hword {other : String} : t'.isWord other = true ↔ word = other := by
    rw [ht'.isWord_iff, hu, Symbol.word.injEq]
  refine ⟨mid, hmid, ?_⟩
  rw [opening, bind_of_ok hpeek, if_neg (kind_ne_stop hstop ht (front_of_isNotes hv hu)),
    bind_of_ok hnotes, bind_of_ok hpeek']
  simp only [hword]
  cases hp <;> rfl

private theorem opening_body {eof : Token} (hend : Ends (.ended eof)) (hstop : IsStop stop)
    {notes : Annotations} {ss : List Statement} {v w : List Symbol} (hv : IsNotes notes v)
    (hw : IsBody ns notes ss w) (hs : Spells ts (v ++ (w ++ left))) :
    ∃ items rest, opening ns stop (.ended eof) ts = .ok (.items items, rest) ∧
      items.map Item.statement = ss ∧ Spells rest left := by
  -- The reader that the word at the front chooses recognizes the declaration.
  have hread {word : String} {p : Reader (List Item)} (hp : ReadsBody ns notes word p)
      (hrec : Recognizes p (List.map Item.statement)
        (fun ss w ↦ IsBody ns notes ss w ∧ front w = .word word) fun _ ↦ True)
      (hfront : front w = .word word) :
      ∃ items rest, opening ns stop (.ended eof) ts = .ok (.items items, rest) ∧
        items.map Item.statement = ss ∧ Spells rest left := by
    have hu : front (w ++ left) = .word word := by
      rw [eq_cons_of_front hfront nofun]
      rfl
    obtain ⟨mid, hmid, hopen⟩ := opening_of_word hend hstop hv hp hu hs
    obtain ⟨items, rest, hitems, rfl, hrest⟩ := hrec.complete hend hmid ⟨hw, hfront⟩ trivial
    exact ⟨items, rest, hopen.trans (bind_of_ok hitems), rfl, hrest⟩
  rcases isBody_front hw with h | h | h
  · exact hread .entity entity_recognizes h
  · exact hread .action action_recognizes h
  · exact hread .commonType commonType_recognizes h

/-! ### Sequences of declarations -/

/-- Progress that is put after items has no failure exactly if it has none. -/
theorem after_eq_ok {items all : List Item} {p : Progress} :
    p.after items = ⟨all, .ok rest⟩ ↔ ∃ more, p = ⟨more, .ok rest⟩ ∧ all = items ++ more := by
  obtain ⟨found, outcome⟩ := p
  simp only [Progress.after, Progress.mk.injEq]
  constructor
  · rintro ⟨rfl, rfl⟩
    exact ⟨found, ⟨rfl, rfl⟩, rfl⟩
  · rintro ⟨more, ⟨rfl, rfl⟩, rfl⟩
    exact ⟨rfl, rfl⟩

/-- Reading on has no failure exactly if neither part has one. -/
theorem andThen_eq_ok {p : Progress} {f : List Token → Progress} {all : List Item} :
    p.andThen f = ⟨all, .ok rest⟩ ↔ ∃ items mid more, p = ⟨items, .ok mid⟩ ∧
      f mid = ⟨more, .ok rest⟩ ∧ all = items ++ more := by
  obtain ⟨items, outcome⟩ := p
  cases outcome with
  | error f => simp [Progress.andThen]
  | ok mid =>
    simp only [Progress.andThen, after_eq_ok]
    constructor
    · rintro ⟨more, hmore, rfl⟩
      exact ⟨items, mid, more, rfl, hmore, rfl⟩
    · rintro ⟨_, _, more, ⟨⟩, hmore, rfl⟩
      exact ⟨more, hmore, rfl⟩

/-- A token of a kind is skipped exactly if it is taken. -/
theorem skip_eq_ok {kind : TokenKind} {all : List Item} :
    skip around kind ts = ⟨all, .ok rest⟩ ↔
      all = [] ∧ ∃ t, expect kind around ts = .ok (t, rest) := by
  rw [skip]
  cases expect kind around ts with
  | error f => simp [Except.map]
  | ok r =>
    simp only [Except.map, Progress.mk.injEq, Except.ok.injEq, Prod.ext_iff]
    constructor
    · rintro ⟨rfl, rfl⟩
      exact ⟨rfl, r.1, rfl, rfl⟩
    · rintro ⟨rfl, t, _, rfl⟩
      exact ⟨rfl, rfl⟩

/-- A mark at the front is skipped. -/
theorem skip_mark (around : Surroundings) {m : Mark}
    (hs : Spells ts (.mark m :: left)) :
    ∃ rest, skip around (.mark m) ts = ⟨[], .ok rest⟩ ∧ Spells rest left := by
  obtain ⟨t, rest, ht, hrest⟩ := expect_mark around hs
  exact ⟨rest, skip_eq_ok.mpr ⟨rfl, t, ht⟩, hrest⟩

/-- Without a step no declarations are read. -/
theorem declarations_zero_ne_ok {items : List Item} :
    declarations around 0 ns stop ts ≠ ⟨items, .ok rest⟩ := by
  intro h
  rw [declarations] at h
  obtain ⟨-, h⟩ := Progress.mk.inj h
  cases hread : (next >>= fun t ↦ unexpected t .declaration : Reader Unit) around ts with
  | error f =>
    rw [hread] at h
    cases h
  | ok r =>
    obtain ⟨_, _, _, hread⟩ := bind_eq_ok.mp hread
    exact absurd hread unexpected_ne_ok

/-- What is read as a sequence of declarations is one, up to a token that it stops at. -/
theorem declarations_sound (hend : Ends around) (n : Nat) :
    ∀ {ns stop ts u items rest}, Spells ts u →
      declarations around n ns stop ts = ⟨items, .ok rest⟩ →
      ∃ used left, u = used ++ left ∧ Spells rest left ∧
        IsDeclarations ns (items.map Item.statement) used ∧
        ∃ t, t.kind = stop ∧ peek around rest = .ok (t, rest) := by
  induction n with
  | zero =>
    intro ns stop ts u items rest _ h
    exact absurd h declarations_zero_ne_ok
  | succ n ih =>
    intro ns stop ts u items rest hs h
    rw [declarations] at h
    cases hopen : opening ns stop around ts with
    | error f =>
      simp only [hopen] at h
      cases h
    | ok r =>
      obtain ⟨o, ts₁⟩ := r
      rcases opening_sound hend hs hopen with
        ⟨rfl, rfl, ht⟩ | ⟨used, u, rfl, hs₁, hused⟩
      · simp only [hopen] at h
        cases h
        exact ⟨[], u, rfl, hs, .none, ht⟩
      · cases hused with
        | items hdecl =>
          simp only [hopen] at h
          obtain ⟨more, hmore, rfl⟩ := after_eq_ok.mp h
          obtain ⟨used', left, rfl, hrest, hall, ht⟩ := ih hs₁ hmore
          refine ⟨_, left, (List.append_assoc ..).symm, hrest, ?_, ht⟩
          rw [List.map_append]
          exact .more hdecl hall
        | @block n' notes span v w hv hw =>
          simp only [hopen] at h
          obtain ⟨all, h₁, rfl⟩ := after_eq_ok.mp h
          obtain ⟨_, ts₂, more₁, hskip, h₂, rfl⟩ := andThen_eq_ok.mp h₁
          obtain ⟨rfl, t₂, hbrace⟩ := skip_eq_ok.mp hskip
          obtain ⟨u, rfl, hs₂⟩ := expect_mark_shows hend hs₁ hbrace
          obtain ⟨inner, ts₃, more₂, hread, h₃, rfl⟩ := andThen_eq_ok.mp h₂
          obtain ⟨w', u, rfl, hs₃, hinner, -⟩ := ih hs₂ hread
          obtain ⟨_, ts₄, more₃, hskip', hmore, rfl⟩ := andThen_eq_ok.mp h₃
          obtain ⟨rfl, t₄, hclose⟩ := skip_eq_ok.mp hskip'
          obtain ⟨u, rfl, hs₄⟩ := expect_mark_shows hend hs₃ hclose
          obtain ⟨used, left, rfl, hrest, houter, ht⟩ := ih hs₄ hmore
          refine ⟨(v ++ .word "namespace" :: w ++ .mark .leftBrace :: w' ++ [.mark .rightBrace]) ++
            used, left, by simp, hrest, ?_, ht⟩
          simpa [Item.statement] using IsDeclarations.more (.block hv hw hinner) houter

/-- In the given number of steps, every sequence of declarations is read up to the token that it
stops at. -/
def Completes (eof : Token) (n : Nat) : Prop :=
  ∀ {ns ss w stop ts left}, IsStop stop → IsDeclarations ns ss w → Spells ts (w ++ left) →
    (∀ t, Shows t (front left) → t.kind = stop) → ts.length < n →
    ∃ items rest, declarations (.ended eof) n ns stop ts = ⟨items, .ok rest⟩ ∧
      items.map Item.statement = ss ∧ Spells rest left

/-- One step reads a declaration, and the other declarations are read after it. -/
theorem declarations_more {eof : Token} (hend : Ends (.ended eof)) {n : Nat}
    (hn : Completes eof n) {ss : List Statement} {w : List Symbol} (hstop : IsStop stop)
    (h : IsDeclaration ns ss w) (hs : Spells ts (w ++ left)) (hlen : ts.length < n + 1) :
    ∃ items mid, declarations (.ended eof) (n + 1) ns stop ts =
        (declarations (.ended eof) n ns stop mid).after items ∧
      items.map Item.statement = ss ∧ Spells mid left ∧ mid.length < n := by
  cases h with
  | body hv hw =>
    simp only [List.append_assoc] at hs
    obtain ⟨items, mid, hopen, rfl, hmid⟩ := opening_body hend hstop hv hw hs
    refine ⟨items, mid, ?_, rfl, hmid, ?_⟩
    · simp only [declarations, hopen]
    · have := hs.length_eq
      have := hmid.length_eq
      have := List.length_pos_iff.mpr (isBody_ne_nil hw)
      simp only [List.length_append] at *
      omega
  | @block _ n' notes ss u v w hv hw hinner =>
    simp only [List.append_assoc, List.cons_append, List.nil_append] at hs
    obtain ⟨span, ts₁, hopen, hs₁⟩ := opening_block ns hend hstop hv hw hs
    obtain ⟨ts₂, hbrace, hs₂⟩ := skip_mark (.ended eof) hs₁
    have htotal : ts.length = u.length + v.length + ts₂.length + 2 := by
      have := hs.length_eq
      have := hs₂.length_eq
      simp only [List.length_append, List.length_cons] at *
      omega
    obtain ⟨inner, ts₃, hread, rfl, hs₃⟩ := hn (.inr rfl) hinner hs₂
      (fun t ht ↦ ht.kind_mark_iff.mpr rfl) (by omega)
    obtain ⟨mid, hclose, hmid⟩ := skip_mark (.ended eof) hs₃
    refine ⟨.block (blockName ns n') notes span :: inner, mid, ?_, rfl, hmid, ?_⟩
    · simp only [declarations, hopen, hbrace, hread, hclose, Progress.andThen, Progress.after,
        List.nil_append, List.cons_append]
    · have := hs₂.length_eq
      have := hmid.length_eq
      simp only [List.length_append, List.length_cons] at *
      omega

/-- Every sequence of declarations is read up to the token that it stops at. -/
theorem declarations_complete {eof : Token} (hend : Ends (.ended eof)) (n : Nat) :
    Completes eof n := by
  induction n with
  | zero => exact fun _ _ _ _ hn ↦ absurd hn (Nat.not_lt_zero _)
  | succ n ih =>
    intro ns ss w stop ts left hstop h hs hleft hn
    cases h with
    | none =>
      obtain ⟨t, hpeek, ht⟩ := peek_of_spells hend hs
      have hopen : opening ns stop (.ended eof) ts = .ok (.done, ts) := by
        rw [opening, bind_of_ok hpeek, if_pos (hleft t ht)]
        rfl
      refine ⟨[], ts, ?_, rfl, hs⟩
      simp only [declarations, hopen]
    | more hdecl hmore =>
      rw [List.append_assoc] at hs
      obtain ⟨items, mid, hstep, rfl, hmid, hlen⟩ := declarations_more hend ih hstop hdecl hs hn
      obtain ⟨more, rest, hread, rfl, hrest⟩ := ih hstop hmore hmid hleft hlen
      refine ⟨items ++ more, rest, ?_, by simp, hrest⟩
      rw [hstep, hread]
      rfl

end PolicySchema.Text.Grammar
