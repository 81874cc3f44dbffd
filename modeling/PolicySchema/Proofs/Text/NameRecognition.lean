import PolicySchema.Proofs.Table
import PolicySchema.Proofs.Text.Recognition

/-!
# Reading names, annotations and keys

The productions of the grammar below types are recognized by their readers.
-/

namespace PolicySchema.Text.Grammar

open Reader Syntax

variable {around : Surroundings} {ts rest : List Token} {u left : List Symbol}

/-! ### Names -/

/-- Identifiers are recognized. -/
theorem identifier_recognizes : Recognizes identifier Prod.fst IsIdentifier fun _ ↦ True where
  sound := by
    intro around ts b rest u hend hs h
    rw [identifier, bind_eq_ok] at h
    obtain ⟨t, mid, ht, h⟩ := h
    obtain ⟨left, rfl, -, hmid⟩ := expect_word_shows hend hs ht
    cases hid : Identifier.parse t.text with
    | error e =>
      rw [hid] at h
      exact absurd h fail_ne_ok
    | ok id =>
      rw [hid] at h
      obtain ⟨rfl, rfl⟩ := pure_eq_ok.mp h
      refine ⟨[.word t.text], left, rfl, hmid, ?_⟩
      rw [← Identifier.parse_eq_ok_iff.mp hid]
      exact .word id
  complete := by
    rintro eof ts id w left hend hs ⟨⟩ -
    obtain ⟨t, mid, ht, htext, -, hmid⟩ := expect_word (.ended eof) hs
    refine ⟨(id, t.span), mid, ?_, rfl, hmid⟩
    rw [identifier, bind_of_ok ht, htext, Identifier.parse_text]
    rfl

/-- An identifier is read where its word stands. -/
theorem identifier_of_spells {eof : Token} (hend : Ends (.ended eof)) {id : Identifier}
    (hs : Spells ts (.word id.text :: left)) :
    ∃ b rest, identifier (.ended eof) ts = .ok (b, rest) ∧ b.1 = id ∧ Spells rest left := by
  rw [← List.singleton_append] at hs
  exact identifier_recognizes.complete hend hs (.word id) trivial

/-- An identifier takes a symbol. -/
theorem isIdentifier_ne_nil (id : Identifier) (w : List Symbol) (h : IsIdentifier id w) :
    w ≠ [] := by
  cases h
  exact List.cons_ne_nil _ _

private theorem components_of_read (first : Identifier × Span) (more : List (Identifier × Span)) :
    (Name.mk (first.1 :: more.map Prod.fst).dropLast
      ((more.getLast?.map Prod.fst).getD first.1)).components = first.1 :: more.map Prod.fst := by
  apply List.dropLast_append_getLast?
  rw [List.getLast?_cons, List.getLast?_map]
  rfl

/-- Names are recognized before anything but another separator. -/
theorem name_recognizes : Recognizes name Prod.fst IsPath (· ≠ .mark .doubleColon) where
  sound := by
    intro around ts b rest u hend hs h
    rw [name, bind_eq_ok] at h
    obtain ⟨first, mid, hfirst, h⟩ := h
    obtain ⟨v, left, rfl, hmid, hP⟩ := identifier_recognizes.sound hend hs hfirst
    rw [bind_eq_ok] at h
    obtain ⟨more, mid', hmore, h⟩ := h
    obtain ⟨rfl, rfl⟩ := pure_eq_ok.mp h
    obtain ⟨used, left', rfl, hleft, hsep⟩ :=
      repeatUpTo_after_sound identifier_recognizes hend _ hmid hmore
    refine ⟨v ++ used, left', by simp, hleft, ?_⟩
    rw [IsPath, components_of_read]
    exact hsep _ _ hP
  complete := by
    intro eof ts n w left hend hs hn hnext
    have hread (first : Identifier × Span) (more : List (Identifier × Span)) (mid rest : List Token)
        (hfirst : identifier (.ended eof) ts = .ok (first, mid))
        (hmore : (after .doubleColon identifier).repeated (.ended eof) mid = .ok (more, rest))
        (hids : first.1 :: more.map Prod.fst = n.components) :
        ∃ span, name (.ended eof) ts = .ok ((n, span), rest) := by
      have hn : Name.mk (first.1 :: more.map Prod.fst).dropLast
          ((more.getLast?.map Prod.fst).getD first.1) = n := by
        apply Name.components_inj.mp
        rw [← hids]
        exact components_of_read first more
      refine ⟨first.2.through ((more.getLast?.map Prod.snd).getD first.2), ?_⟩
      rw [← hn, name, bind_of_ok hfirst]
      exact bind_of_ok hmore
    unfold IsPath at hn
    generalize hc : n.components = ids at hn
    cases hn with
    | last hid =>
      obtain ⟨first, mid, hfirst, rfl, hmid⟩ :=
        identifier_recognizes.complete hend hs hid trivial
      have hmore := repeatUpTo_after_stop (p := identifier) hend hmid hnext (mid.length + 1)
      obtain ⟨span, hb⟩ := hread first [] mid mid hfirst hmore hc.symm
      exact ⟨(n, span), mid, hb, rfl, hmid⟩
    | @more _ ids v w hid hsep =>
      rw [List.append_assoc, List.cons_append, ← List.cons_append] at hs
      obtain ⟨first, mid, hfirst, rfl, hmid⟩ :=
        identifier_recognizes.complete hend hs hid trivial
      have hlen : ids.length ≤ mid.length + 1 := by
        have := hsep.length_le isIdentifier_ne_nil
        have := hmid.length_eq
        simp at this
        omega
      obtain ⟨more, rest, hmore, hmap, hrest⟩ := repeatUpTo_after_complete identifier_recognizes
        trivial hend hnext trivial hsep hlen hmid
      obtain ⟨span, hb⟩ := hread first more mid rest hfirst hmore (by rw [hmap, hc])
      exact ⟨(n, span), rest, hb, rfl, hrest⟩

/-- What writes the components of a name after the first. -/
def links (ids : List Identifier) : List Symbol :=
  ids.flatMap fun id ↦ [.mark .doubleColon, .word id.text]

private theorem separated_links (id : Identifier) (ids : List Identifier) :
    Separated .doubleColon IsIdentifier (id :: ids) (.word id.text :: links ids) := by
  induction ids generalizing id with
  | nil => exact .last (.word id)
  | cons next ids ih => exact .more (.word id) (ih next)

/-- A name is the word of its first component and what writes the others. -/
theorem isPath_iff {n : Name} {w : List Symbol} :
    IsPath n w ↔ ∃ id ids, n.components = id :: ids ∧ w = .word id.text :: links ids := by
  have symbols {all : List Identifier} (h : Separated .doubleColon IsIdentifier all w) :
      ∃ id ids, all = id :: ids ∧ w = .word id.text :: links ids := by
    induction h with
    | last hid =>
      cases hid
      exact ⟨_, [], rfl, rfl⟩
    | more hid _ ih =>
      cases hid
      obtain ⟨next, ids, rfl, rfl⟩ := ih
      exact ⟨_, next :: ids, rfl, rfl⟩
  constructor
  · exact symbols
  · rintro ⟨id, ids, hn, rfl⟩
    rw [IsPath, hn]
    exact separated_links id ids

/-! ### Annotations -/

private theorem annotationValue_recognizes :
    Recognizes annotationValue id IsNoteText (· ≠ .mark .leftParen) where
  sound := by
    intro around ts b rest u hend hs h
    rw [annotationValue, bind_eq_ok] at h
    obtain ⟨opened, mid, he, h⟩ := h
    rcases eat_shows hend hs he with ⟨rfl, u, rfl, hmid⟩ | ⟨rfl, rfl, _⟩
    · rw [if_pos rfl, bind_eq_ok] at h
      obtain ⟨t, ts₂, ht, h⟩ := h
      obtain ⟨u, rfl, hs₂⟩ := expect_literal_shows hend hmid ht
      rw [bind_eq_ok] at h
      obtain ⟨close, ts₃, hc, h⟩ := h
      obtain ⟨left, rfl, hs₃⟩ := expect_mark_shows hend hs₂ hc
      obtain ⟨rfl, rfl⟩ := pure_eq_ok.mp h
      exact ⟨_, left, rfl, hs₃, .given t.value⟩
    · obtain ⟨rfl, rfl⟩ := pure_eq_ok.mp h
      exact ⟨[], u, rfl, hs, .none⟩
  complete := by
    intro eof ts text w left hend hs hP hf
    cases hP with
    | none =>
      refine ⟨"", ts, ?_, rfl, hs⟩
      rw [annotationValue, bind_of_ok (eat_other hend hs hf)]
      rfl
    | given =>
      obtain ⟨ts₁, ho, hs₁⟩ := eat_mark (.ended eof) hs
      obtain ⟨t, ts₂, ht, hvalue, hs₂⟩ := expect_literal (.ended eof) hs₁
      obtain ⟨close, rest, hc, hrest⟩ := expect_mark (.ended eof) hs₂
      refine ⟨t.value, rest, ?_, hvalue, hrest⟩
      rw [annotationValue, bind_of_ok ho, if_pos rfl, bind_of_ok ht, bind_of_ok hc]
      rfl

private theorem annotationsUpTo_sound (hend : Ends around) (n : Nat) :
    ∀ (done : List (Identifier × String)) {ts u notes rest}, (done.map Prod.fst).Nodup →
      Spells ts u → annotationsUpTo n (Table.ofList done) around ts = .ok (notes, rest) →
      ∃ entries used left, u = used ++ left ∧ Spells rest left ∧
        Syntax.Repeated IsAnnotation entries used ∧ ((done ++ entries).map Prod.fst).Nodup ∧
        notes = Table.ofList (done ++ entries) := by
  induction n with
  | zero =>
    intro done ts u notes rest hd hs h
    obtain ⟨rfl, rfl⟩ := pure_eq_ok.mp h
    exact ⟨[], [], u, rfl, hs, .none, by simpa using hd, by simp⟩
  | succ n ih =>
    intro done ts u notes rest hd hs h
    rw [annotationsUpTo, bind_eq_ok] at h
    obtain ⟨found, mid, he, h⟩ := h
    rcases eat_shows hend hs he with ⟨rfl, u, rfl, hs₁⟩ | ⟨rfl, rfl, _⟩
    · rw [if_pos rfl, bind_eq_ok] at h
      obtain ⟨key, ts₂, hkey, h⟩ := h
      obtain ⟨v, u, rfl, hs₂, ⟨⟩⟩ := identifier_recognizes.sound hend hs₁ hkey
      rw [bind_eq_ok] at h
      obtain ⟨value, ts₃, hvalue, h⟩ := h
      obtain ⟨w, left, rfl, hs₃, htext⟩ := annotationValue_recognizes.sound hend hs₂ hvalue
      split at h
      · exact absurd h fail_ne_ok
      · next hnew =>
        rw [Table.contains_ofList hd] at hnew
        rw [← Table.ofList_concat] at h
        obtain ⟨entries, used, left, rfl, hrest, hall, hdiff, hnotes⟩ :=
          ih _ (nodup_map_concat hd hnew) hs₃ h
        rw [List.append_assoc] at hdiff hnotes
        refine ⟨(key.1, value) :: entries, (.mark .at :: .word key.1.text :: w) ++ used, left, ?_,
          hrest, .more (.keyed htext) hall, hdiff, hnotes⟩
        simp
    · obtain ⟨rfl, rfl⟩ := pure_eq_ok.mp h
      exact ⟨[], [], u, rfl, hs, .none, by simpa using hd, by simp⟩

private theorem annotationsUpTo_complete {eof : Token} (hend : Ends (.ended eof))
    (hat : front left ≠ .mark .at) (hparen : front left ≠ .mark .leftParen)
    {entries : List (Identifier × String)} {w : List Symbol}
    (h : Syntax.Repeated IsAnnotation entries w) :
    ∀ {n ts} (done : List (Identifier × String)), entries.length ≤ n →
      ((done ++ entries).map Prod.fst).Nodup → Spells ts (w ++ left) →
      ∃ rest, annotationsUpTo n (Table.ofList done) (.ended eof) ts =
        .ok (Table.ofList (done ++ entries), rest) ∧ Spells rest left := by
  induction h with
  | none =>
    intro n ts done _ _ hs
    refine ⟨ts, ?_, hs⟩
    rw [List.append_nil]
    cases n with
    | zero => rfl
    | succ n =>
      rw [annotationsUpTo, bind_of_ok (eat_other hend hs hat)]
      rfl
  | @more _ entries _ v ha hrep ih =>
    intro n ts done hn hdiff hs
    obtain ⟨n, rfl⟩ : ∃ m, n = m + 1 := ⟨n - 1, by simp at hn; omega⟩
    cases ha with
    | @keyed key text u htext =>
      rw [List.append_assoc] at hs
      obtain ⟨ts₁, ho, hs₁⟩ := eat_mark (.ended eof) hs
      obtain ⟨⟨key, span⟩, ts₂, hkey, rfl, hs₂⟩ := identifier_of_spells hend hs₁
      have hnext : front (v ++ left) ≠ .mark .leftParen := by
        cases hrep with
        | none => exact hparen
        | more ha _ =>
          cases ha
          nofun
      obtain ⟨value, ts₃, hvalue, rfl, hs₃⟩ :=
        annotationValue_recognizes.complete hend hs₂ htext hnext
      have hnew : ¬ (Table.ofList done).contains key = true := by
        obtain ⟨hdone, hkey⟩ := nodup_map_before hdiff
        rw [Table.contains_ofList hdone]
        exact hkey
      rw [List.append_cons] at hdiff ⊢
      obtain ⟨rest, hall, hrest⟩ := ih _ (by simpa using hn) hdiff hs₃
      refine ⟨rest, ?_, hrest⟩
      rw [annotationsUpTo, bind_of_ok ho, if_pos rfl, bind_of_ok hkey]
      dsimp only
      rw [bind_of_ok hvalue, if_neg hnew, ← Table.ofList_concat]
      exact hall

/-- Annotations are recognized before anything but another one and a parenthesis. -/
theorem annotations_recognizes :
    Recognizes annotations id IsNotes fun s ↦ s ≠ .mark .at ∧ s ≠ .mark .leftParen where
  sound := by
    intro around ts b rest u hend hs h
    obtain ⟨entries, used, left, rfl, hrest, hall, hdiff, rfl⟩ :=
      annotationsUpTo_sound hend _ [] List.nodup_nil hs h
    exact ⟨used, left, rfl, hrest, .listed hall hdiff⟩
  complete := by
    rintro eof ts notes w left hend hs ⟨hall, hdiff⟩ ⟨hat, hparen⟩
    next entries =>
    have hlen : entries.length ≤ ts.length + 1 := by
      have := hall.length_le (by rintro _ _ ⟨⟩; exact List.cons_ne_nil _ _)
      have := hs.length_eq
      simp at this
      omega
    obtain ⟨rest, h, hrest⟩ :=
      annotationsUpTo_complete hend hat hparen hall [] hlen hdiff hs
    exact ⟨_, rest, h, rfl, hrest⟩

/-! ### Keys -/

/-- Keys of attributes are recognized. -/
theorem attributeKey_recognizes : Recognizes attributeKey Prod.fst IsKey fun _ ↦ True where
  sound := by
    intro around ts b rest u hend hs h
    rw [attributeKey, bind_eq_ok] at h
    obtain ⟨t, mid, ht, h⟩ := h
    rcases next_shows hend hs ht with ⟨s, left, rfl, hshow, hmid⟩ | ⟨rfl, rfl, hshow⟩
    · cases hshow with
      | word text start =>
        simp only at h
        split at h
        · exact absurd h fail_ne_ok
        · next hword =>
          obtain ⟨rfl, rfl⟩ := pure_eq_ok.mp h
          exact ⟨_, left, rfl, hmid, .word hword⟩
      | literal text value start =>
        obtain ⟨rfl, rfl⟩ := pure_eq_ok.mp h
        exact ⟨_, left, rfl, hmid, .literal value⟩
      | mark => exact absurd h unexpected_ne_ok
      | endOfInput => exact absurd h unexpected_ne_ok
    · cases hshow
      exact absurd h unexpected_ne_ok
  complete := by
    intro eof ts key w left hend hs hkey _
    cases hkey with
    | word hword =>
      cases hs with
      | @cons t _ ts _ ht hs =>
        refine ⟨(key, t.span), ts, ?_, rfl, hs⟩
        cases ht
        rw [attributeKey, bind_of_ok rfl]
        dsimp only
        rw [if_neg hword]
        rfl
    | literal =>
      cases hs with
      | @cons t _ ts _ ht hs =>
        refine ⟨(key, t.span), ts, ?_, rfl, hs⟩
        cases ht
        rfl

end PolicySchema.Text.Grammar
