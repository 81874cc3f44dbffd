import PolicySchema.Proofs.Text.EntityRecognition

/-!
# Reading declarations of actions

Declarations of actions are recognized by their reader. A reference to an action is a literal after
a path or a key alone, and the entries of an `appliesTo` block may stand in any order.
-/

namespace PolicySchema.Text.Grammar

open Reader Syntax

variable {around : Surroundings} {ts rest : List Token} {u left : List Symbol}

/-! ### References to actions -/

private theorem actionName_eq_ok_iff {b : String × Span} :
    actionName around ts = .ok (b, rest) ↔ attributeKey around ts = .ok (b, rest) := by
  rw [actionName, attributeKey, bind_eq_ok, bind_eq_ok]
  refine exists_congr fun t ↦ exists_congr fun mid ↦ and_congr_right fun _ ↦ ?_
  cases t.kind with
  | word => rfl
  | literal => rfl
  | mark => exact ⟨fun h ↦ absurd h unexpected_ne_ok, fun h ↦ absurd h unexpected_ne_ok⟩
  | endOfInput => exact ⟨fun h ↦ absurd h unexpected_ne_ok, fun h ↦ absurd h unexpected_ne_ok⟩

/-- Names of actions are recognized. -/
theorem actionName_recognizes : Recognizes actionName Prod.fst IsKey fun _ ↦ True where
  sound hend hs h := attributeKey_recognizes.sound hend hs (actionName_eq_ok_iff.mp h)
  complete hend hs hkey hf := by
    obtain ⟨b, rest, h, hview, hrest⟩ := attributeKey_recognizes.complete hend hs hkey hf
    exact ⟨b, rest, actionName_eq_ok_iff.mpr h, hview, hrest⟩

private theorem actionRefUpTo_sound (hend : Ends around) (n : Nat) :
    ∀ {ids ts u ref rest}, Spells ts u → actionRefUpTo n ids around ts = .ok (ref, rest) →
      ∃ more value left, u = links more ++ .mark .doubleColon :: .literal value :: left ∧
        ref = ⟨Name.ofComponents? (ids ++ more), value⟩ ∧ Spells rest left := by
  have hunexpected {ts : List Token} {ref : ActionRef} {rest : List Token} {P : Prop}
      (h : (next >>= fun t ↦ unexpected t .actionReference) around ts = .ok (ref, rest)) : P := by
    obtain ⟨_, _, _, h⟩ := bind_eq_ok.mp h
    exact absurd h unexpected_ne_ok
  induction n with
  | zero =>
    intro ids ts u ref rest _ h
    exact hunexpected h
  | succ n ih =>
    intro ids ts u ref rest hs h
    rw [actionRefUpTo, bind_eq_ok] at h
    obtain ⟨colons, ts₁, hcolons, h⟩ := h
    obtain ⟨u, rfl, hs₁⟩ := expect_mark_shows hend hs hcolons
    rcases ifLiteral_shows hend hs₁ h with ⟨t, mid, left, rfl, hmid, h⟩ | h
    · obtain ⟨rfl, rfl⟩ := pure_eq_ok.mp h
      exact ⟨[], t.value, left, rfl, by simp, hmid⟩
    · rw [bind_eq_ok] at h
      obtain ⟨id, ts₂, hid, h⟩ := h
      obtain ⟨_, u, rfl, hs₂, ⟨⟩⟩ := identifier_recognizes.sound hend hs₁ hid
      rcases ifMark_shows hend hs₂ h with ⟨-, h⟩ | ⟨-, h⟩
      · obtain ⟨more, value, left, rfl, rfl, hrest⟩ := ih hs₂ h
        exact ⟨id.1 :: more, value, left, rfl, by simp, hrest⟩
      · exact hunexpected h

private theorem front_links (more : List Identifier) (u : List Symbol) :
    front (links more ++ .mark .doubleColon :: u) = .mark .doubleColon := by
  cases more <;> rfl

private theorem actionRefUpTo_complete {eof : Token} (hend : Ends (.ended eof)) (value : String)
    (more : List Identifier) : ∀ (ids : List Identifier) {n ts}, more.length < n →
      Spells ts (links more ++ .mark .doubleColon :: .literal value :: left) →
      ∃ rest, actionRefUpTo n ids (.ended eof) ts =
        .ok (⟨Name.ofComponents? (ids ++ more), value⟩, rest) ∧ Spells rest left := by
  induction more with
  | nil =>
    intro ids n ts hn hs
    obtain ⟨n, rfl⟩ : ∃ m, n = m + 1 := ⟨n - 1, by simp at hn; omega⟩
    obtain ⟨colons, ts₁, hcolons, hs₁⟩ := expect_mark (.ended eof) hs
    obtain ⟨t, rest, rfl, hrest, hread⟩ := ifLiteral_of_spells (.ended eof) hs₁
    refine ⟨rest, ?_, hrest⟩
    rw [actionRefUpTo, bind_of_ok hcolons, hread, List.append_nil]
    rfl
  | cons id more ih =>
    intro ids n ts hn hs
    obtain ⟨n, rfl⟩ : ∃ m, n = m + 1 := ⟨n - 1, by simp at hn; omega⟩
    obtain ⟨colons, ts₁, hcolons, hs₁⟩ := expect_mark (.ended eof) hs
    obtain ⟨⟨id, span⟩, ts₂, hid, rfl, hs₂⟩ := identifier_of_spells hend hs₁
    obtain ⟨rest, hrest, hleft⟩ := ih (ids ++ [id]) (by simpa using hn) hs₂
    refine ⟨rest, ?_, hleft⟩
    rw [List.append_assoc] at hrest
    rw [actionRefUpTo, bind_of_ok hcolons, ifLiteral_other hend hs₁ nofun, bind_of_ok hid]
    exact (ifMark_of_front hend hs₂ (front_links more _)).trans hrest

private theorem isActionRef_links (first : Identifier) (more : List Identifier) (value : String) :
    IsActionRef ⟨Name.ofComponents? (first :: more), value⟩
      (.word first.text :: links more ++ [.mark .doubleColon, .literal value]) := by
  have hn : (Name.mk (first :: more).dropLast
      ((first :: more).getLast (by simp))).components = first :: more :=
    List.dropLast_append_getLast (by simp)
  have href := IsActionRef.typed value (isPath_iff.mpr ⟨first, more, hn, rfl⟩)
  rw [← Name.ofComponents?_components, hn] at href
  exact href

/-- References to actions are recognized. -/
theorem actionRef_recognizes : Recognizes actionRef id IsActionRef (· ≠ .mark .doubleColon) where
  sound := by
    intro around ts ref rest u hend hs h
    rcases ifLiteral_shows hend hs h with ⟨t, mid, left, rfl, hmid, h⟩ | h
    · obtain ⟨rfl, rfl⟩ := pure_eq_ok.mp h
      exact ⟨[.literal t.value], left, rfl, hmid, .literal t.value⟩
    · rw [bind_eq_ok] at h
      obtain ⟨⟨first, span⟩, ts₁, hfirst, h⟩ := h
      obtain ⟨_, u, rfl, hs₁, ⟨⟩⟩ := identifier_recognizes.sound hend hs hfirst
      rcases ifMark_shows hend hs₁ h with ⟨-, h⟩ | ⟨-, h⟩
      · obtain ⟨more, value, left, rfl, rfl, hrest⟩ := actionRefUpTo_sound hend _ hs₁ h
        exact ⟨_, left, by simp, hrest, isActionRef_links first more value⟩
      · obtain ⟨rfl, rfl⟩ := pure_eq_ok.mp h
        exact ⟨_, u, rfl, hs₁, .identifier first⟩
  complete := by
    intro eof ts ref w left hend hs href hf
    cases href with
    | literal value =>
      obtain ⟨t, mid, rfl, hmid, hread⟩ := ifLiteral_of_spells (.ended eof) hs
      exact ⟨⟨none, t.value⟩, mid, hread, rfl, hmid⟩
    | identifier id =>
      obtain ⟨⟨id, span⟩, ts₁, hid, rfl, hs₁⟩ := identifier_of_spells hend hs
      refine ⟨⟨none, id.text⟩, ts₁, ?_, rfl, hs₁⟩
      rw [actionRef, ifLiteral_other hend hs nofun, bind_of_ok hid]
      exact ifMark_other hend hs₁ hf
    | @typed n _ value hpath =>
      obtain ⟨first, more, hn, rfl⟩ := isPath_iff.mp hpath
      rw [List.append_assoc] at hs
      obtain ⟨⟨first, span⟩, ts₁, hfirst, rfl, hs₁⟩ := identifier_of_spells hend hs
      have hlen : more.length < ts₁.length + 1 := by
        have := hs₁.length_eq
        simp [links] at this
        omega
      obtain ⟨rest, hread, hrest⟩ :=
        actionRefUpTo_complete hend value more [first] hlen hs₁
      have href : Name.ofComponents? ([first] ++ more) = some n := by
        rw [← Name.ofComponents?_components, hn]
        rfl
      rw [href] at hread
      refine ⟨⟨some n, value⟩, rest, ?_, rfl, hrest⟩
      rw [actionRef, ifLiteral_other hend hs nofun, bind_of_ok hfirst]
      exact (ifMark_of_front hend hs₁ (front_links more _)).trans hread

/-! ### What an action applies to -/

/-- The word that an entry stands under. -/
def EntryKey.word : EntryKey → String
  | .principal => "principal"
  | .resource => "resource"
  | .context => "context"

private theorem entryKey?_eq_some_iff {text : String} {key : EntryKey} :
    entryKey? text = some key ↔ text = key.word := by
  constructor
  · intro h
    unfold entryKey? at h
    split at h
    · next htext =>
      cases h
      exact htext
    · split at h
      · next htext =>
        cases h
        exact htext
      · split at h
        · next htext =>
          cases h
          exact htext
        · cases h
  · rintro rfl
    cases key <;> decide

/-- Entries with one more. -/
def Entries.add (earlier : Entries) : Entry → Entries
  | .principals names => { earlier with principals := some names }
  | .resources names => { earlier with resources := some names }
  | .context type => { earlier with context := some type }

/-- Entries that were read in some order. -/
def Entries.of (entries : List Entry) : Entries where
  principals := entries.findSome? Entry.principals?
  resources := entries.findSome? Entry.resources?
  context := entries.findSome? Entry.context?

private theorem Entries.has_of {entries : List Entry} {key : EntryKey} :
    (Entries.of entries).has key = true ↔ key ∈ entries.map Entry.key := by
  have hkey (e : Entry) : e.key = key ↔ match key with
      | .principal => e.principals?.isSome = true
      | .resource => e.resources?.isSome = true
      | .context => e.context?.isSome = true := by
    cases e <;> cases key <;> simp [Entry.key, Entry.principals?, Entry.resources?, Entry.context?]
  cases key <;>
    simp [Entries.has, Entries.of, hkey]

private theorem Entries.of_concat {entries : List Entry} {e : Entry}
    (h : e.key ∉ entries.map Entry.key) :
    Entries.of (entries ++ [e]) = (Entries.of entries).add e := by
  rw [← Entries.has_of] at h
  cases e with
  | principals names =>
    have hnone : entries.findSome? Entry.principals? = none := by
      simpa [Entries.has, Entries.of, Entry.key] using h
    simp [Entries.of, Entries.add, hnone, Entry.principals?, Entry.resources?, Entry.context?]
  | resources names =>
    have hnone : entries.findSome? Entry.resources? = none := by
      simpa [Entries.has, Entries.of, Entry.key] using h
    simp [Entries.of, Entries.add, hnone, Entry.principals?, Entry.resources?, Entry.context?]
  | context type =>
    have hnone : entries.findSome? Entry.context? = none := by
      simpa [Entries.has, Entries.of, Entry.key] using h
    simp [Entries.of, Entries.add, hnone, Entry.principals?, Entry.resources?, Entry.context?]

private theorem entryValue_recognizes (earlier : Entries) (key : EntryKey) :
    Recognizes (entryValue earlier key) id (fun all w ↦ ∃ e : Entry, e.key = key ∧
      all = earlier.add e ∧ IsEntry e (.word key.word :: .mark .colon :: w)) EndsType where
  sound := by
    intro around ts all rest u hend hs h
    cases key with
    | principal =>
      rw [entryValue, bind_eq_ok] at h
      obtain ⟨names, ts₁, hnames, h⟩ := h
      obtain ⟨rfl, rfl⟩ := pure_eq_ok.mp h
      obtain ⟨used, left, rfl, hrest, hlist⟩ := entityRefs_recognizes.sound hend hs hnames
      exact ⟨used, left, rfl, hrest, .principals names, rfl, rfl, .principals hlist⟩
    | resource =>
      rw [entryValue, bind_eq_ok] at h
      obtain ⟨names, ts₁, hnames, h⟩ := h
      obtain ⟨rfl, rfl⟩ := pure_eq_ok.mp h
      obtain ⟨used, left, rfl, hrest, hlist⟩ := entityRefs_recognizes.sound hend hs hnames
      exact ⟨used, left, rfl, hrest, .resources names, rfl, rfl, .resources hlist⟩
    | context =>
      rw [entryValue, bind_eq_ok] at h
      obtain ⟨type, ts₁, htype, h⟩ := h
      obtain ⟨rfl, rfl⟩ := pure_eq_ok.mp h
      obtain ⟨used, left, rfl, hrest, ht, hdepth⟩ := typeExpr_recognizes.sound hend hs htype
      exact ⟨used, left, rfl, hrest, .context type, rfl, rfl, .context ht hdepth⟩
  complete := by
    rintro eof ts _ w left hend hs ⟨e, rfl, rfl, hentry⟩ hf
    cases hentry with
    | principals hlist =>
      obtain ⟨names, rest, hnames, rfl, hrest⟩ :=
        entityRefs_recognizes.complete hend hs hlist hf.1
      exact ⟨earlier.add (.principals names), rest, bind_of_ok hnames, rfl, hrest⟩
    | resources hlist =>
      obtain ⟨names, rest, hnames, rfl, hrest⟩ :=
        entityRefs_recognizes.complete hend hs hlist hf.1
      exact ⟨earlier.add (.resources names), rest, bind_of_ok hnames, rfl, hrest⟩
    | context ht hdepth =>
      obtain ⟨type, rest, htype, rfl, hrest⟩ :=
        typeExpr_recognizes.complete hend hs ⟨ht, hdepth⟩ hf
      exact ⟨earlier.add (.context type), rest, bind_of_ok htype, rfl, hrest⟩

private theorem isEntry_symbols {e : Entry} {w : List Symbol} (h : IsEntry e w) :
    ∃ v, w = .word e.key.word :: .mark .colon :: v := by
  cases h <;> exact ⟨_, rfl⟩

private theorem entriesUpTo_succ_shows (hend : Ends around) {n : Nat} {done : List Entry}
    {all : Entries} (hs : Spells ts u)
    (h : entriesUpTo (n + 1) (Entries.of done) around ts = .ok (all, rest)) :
    (all = Entries.of done ∧ rest = ts) ∨
      ∃ e used left mid, u = used ++ left ∧ Spells mid left ∧ IsEntry e used ∧
        e.key ∉ done.map Entry.key ∧
        (eat .comma >>= fun more ↦
          if more then entriesUpTo n (Entries.of (done ++ [e]))
          else pure (Entries.of (done ++ [e]))) around mid = .ok (all, rest) := by
  rcases ifMark_shows hend hs h with ⟨-, h⟩ | ⟨-, h⟩
  · obtain ⟨rfl, rfl⟩ := pure_eq_ok.mp h
    exact .inl ⟨rfl, rfl⟩
  · rw [bind_eq_ok] at h
    obtain ⟨word, ts₂, hword, h⟩ := h
    obtain ⟨u, rfl, -, hs₂⟩ := expect_word_shows hend hs hword
    cases hkey : entryKey? word.text with
    | none =>
      simp only [hkey] at h
      exact absurd h unexpected_ne_ok
    | some key =>
      simp only [hkey] at h
      rw [entryKey?_eq_some_iff] at hkey
      split at h
      · exact absurd h fail_ne_ok
      · next hnew =>
        rw [Entries.has_of] at hnew
        rw [bind_eq_ok] at h
        obtain ⟨colon, ts₃, hcolon, h⟩ := h
        obtain ⟨u, rfl, hs₃⟩ := expect_mark_shows hend hs₂ hcolon
        rw [bind_eq_ok] at h
        obtain ⟨value, mid, hvalue, h⟩ := h
        obtain ⟨w, u, rfl, hmid, e, rfl, rfl, hentry⟩ :=
          (entryValue_recognizes _ _).sound hend hs₃ hvalue
        rw [← hkey] at hentry
        rw [← Entries.of_concat hnew] at h
        exact .inr ⟨e, _, u, mid, by simp, hmid, hentry, hnew, h⟩

private theorem entriesUpTo_sound (hend : Ends around) (n : Nat) :
    ∀ (done : List Entry) {ts u all rest}, (done.map Entry.key).Nodup → Spells ts u →
      entriesUpTo n (Entries.of done) around ts = .ok (all, rest) →
      ∃ entries used left, u = used ++ left ∧ Spells rest left ∧ Trailing IsEntry entries used ∧
        ((done ++ entries).map Entry.key).Nodup ∧ all = Entries.of (done ++ entries) := by
  induction n with
  | zero =>
    intro done ts u all rest hd hs h
    obtain ⟨rfl, rfl⟩ := pure_eq_ok.mp h
    exact ⟨[], [], u, rfl, hs, .none, by simpa using hd, by simp⟩
  | succ n ih =>
    intro done ts u all rest hd hs h
    rcases entriesUpTo_succ_shows hend hs h with
      ⟨rfl, rfl⟩ | ⟨e, w, v, mid, rfl, hmid, hentry, hnew, h⟩
    · exact ⟨[], [], u, rfl, hs, .none, by simpa using hd, by simp⟩
    · have hd' : ((done ++ [e]).map Entry.key).Nodup := nodup_map_concat hd hnew
      rw [bind_eq_ok] at h
      obtain ⟨more, ts₁, hmore, h⟩ := h
      rcases eat_shows hend hmid hmore with ⟨rfl, v, rfl, hs₁⟩ | ⟨rfl, rfl, _⟩
      · rw [if_pos rfl] at h
        obtain ⟨entries, used, left, rfl, hrest, hall, hdiff, rfl⟩ := ih _ hd' hs₁ h
        rw [List.append_assoc] at hdiff
        exact ⟨e :: entries, _, left, by simp, hrest, .more hentry hall, hdiff, by simp⟩
      · obtain ⟨rfl, rfl⟩ := pure_eq_ok.mp h
        exact ⟨[e], w, v, rfl, hmid, .last hentry, hd', rfl⟩

/-- Before an entry with a new key, one step comes to its value, and goes on with what is read
there. -/
theorem entriesUpTo_value {eof : Token} (hend : Ends (.ended eof)) {key : EntryKey}
    {done : List Entry} (hnew : key ∉ done.map Entry.key)
    (hs : Spells ts (.word key.word :: .mark .colon :: left)) (n : Nat) :
    ∃ mid, Spells mid left ∧ entriesUpTo (n + 1) (Entries.of done) (.ended eof) ts =
      (entryValue (Entries.of done) key >>= fun all ↦ eat .comma >>= fun more ↦
        if more then entriesUpTo n all else pure all) (.ended eof) mid := by
  obtain ⟨word, ts₁, hword, htext, -, hs₁⟩ := expect_word (.ended eof) hs
  obtain ⟨colon, mid, hcolon, hmid⟩ := expect_mark (.ended eof) hs₁
  have hkey : entryKey? word.text = some key := by rw [entryKey?_eq_some_iff, htext]
  refine ⟨mid, hmid, ?_⟩
  rw [entriesUpTo, ifMark_other hend hs nofun, bind_of_ok hword]
  simp only [hkey]
  rw [if_neg (by rw [Entries.has_of]; exact hnew), bind_of_ok hcolon]

/-- Before an entry with a new key, one step reads the entry. -/
theorem entriesUpTo_step {eof : Token} (hend : Ends (.ended eof)) {e : Entry}
    {w : List Symbol} (hentry : IsEntry e w) {done : List Entry}
    (hnew : e.key ∉ done.map Entry.key) (hs : Spells ts (w ++ left)) (hf : EndsType (front left))
    (n : Nat) :
    ∃ mid, Spells mid left ∧ entriesUpTo (n + 1) (Entries.of done) (.ended eof) ts =
      (eat .comma >>= fun more ↦
        if more then entriesUpTo n (Entries.of (done ++ [e]))
        else pure (Entries.of (done ++ [e]))) (.ended eof) mid := by
  obtain ⟨v, rfl⟩ := isEntry_symbols hentry
  obtain ⟨ts₁, hs₁, hread⟩ := entriesUpTo_value hend hnew hs n
  obtain ⟨_, mid, hvalue, hall, hmid⟩ := (entryValue_recognizes (Entries.of done) e.key).complete
    hend hs₁ ⟨e, rfl, rfl, hentry⟩ hf
  refine ⟨mid, hmid, ?_⟩
  rw [hread, bind_of_ok hvalue, Entries.of_concat hnew, ← hall]
  rfl

private theorem entriesUpTo_complete {eof : Token} (hend : Ends (.ended eof))
    (hclose : front left = .mark .rightBrace) {entries : List Entry} {w : List Symbol}
    (h : Trailing IsEntry entries w) :
    ∀ {n ts} (done : List Entry), entries.length ≤ n →
      ((done ++ entries).map Entry.key).Nodup → Spells ts (w ++ left) →
      ∃ rest, entriesUpTo n (Entries.of done) (.ended eof) ts =
        .ok (Entries.of (done ++ entries), rest) ∧ Spells rest left := by
  induction h with
  | none =>
    intro n ts done _ _ hs
    refine ⟨ts, ?_, hs⟩
    rw [List.append_nil]
    cases n with
    | zero => rfl
    | succ n => exact ifMark_of_front hend hs hclose
  | last hentry =>
    intro n ts done hn hdiff hs
    obtain ⟨n, rfl⟩ : ∃ m, n = m + 1 := ⟨n - 1, by simp at hn; omega⟩
    obtain ⟨mid, hmid, hstep⟩ :=
      entriesUpTo_step hend hentry (nodup_map_before hdiff).2 hs
        (by rw [hclose]; exact ⟨nofun, nofun⟩) n
    refine ⟨mid, ?_, hmid⟩
    rw [hstep, bind_of_ok (eat_other hend hmid (by rw [hclose]; nofun))]
    rfl
  | more hentry _ ih =>
    intro n ts done hn hdiff hs
    obtain ⟨n, rfl⟩ : ∃ m, n = m + 1 := ⟨n - 1, by simp at hn; omega⟩
    rw [List.append_assoc] at hs
    obtain ⟨mid, hmid, hstep⟩ :=
      entriesUpTo_step hend hentry (nodup_map_before hdiff).2 hs ⟨nofun, nofun⟩ n
    obtain ⟨mid', he, hmid'⟩ := eat_mark (.ended eof) hmid
    rw [List.append_cons] at hdiff ⊢
    obtain ⟨rest, hall, hrest⟩ := ih _ (by simpa using hn) hdiff hmid'
    refine ⟨rest, ?_, hrest⟩
    rw [hstep, bind_of_ok he, if_pos rfl]
    exact hall

/-- What an action applies to is recognized. -/
theorem optionalAppliesTo_recognizes :
    Recognizes optionalAppliesTo id IsAppliesTo (· ≠ .word "appliesTo") where
  sound := by
    intro around ts b rest u hend hs h
    rw [optionalAppliesTo] at h
    rcases ifWord_shows hend hs h with ⟨ts₁, u, rfl, hs₁, h⟩ | h
    · rw [appliesTo, bind_eq_ok] at h
      obtain ⟨block, ts₂, hblock, h⟩ := h
      obtain ⟨rfl, rfl⟩ := pure_eq_ok.mp h
      rw [bind_eq_ok] at hblock
      obtain ⟨brace, ts₃, hbrace, hblock⟩ := hblock
      obtain ⟨u, rfl, hs₃⟩ := expect_mark_shows hend hs₁ hbrace
      rw [bind_eq_ok] at hblock
      obtain ⟨all, ts₄, hentries, hblock⟩ := hblock
      obtain ⟨entries, used, u, rfl, hs₄, htrail, hdiff, rfl⟩ :=
        entriesUpTo_sound hend _ [] List.nodup_nil hs₃ hentries
      rw [bind_eq_ok] at hblock
      obtain ⟨close, ts₅, hclose, hblock⟩ := hblock
      obtain ⟨left, rfl, hs₅⟩ := expect_mark_shows hend hs₄ hclose
      obtain ⟨rfl, rfl⟩ := pure_eq_ok.mp hblock
      exact ⟨_, left, by simp, hs₅, .block htrail hdiff⟩
    · obtain ⟨rfl, rfl⟩ := pure_eq_ok.mp h
      exact ⟨[], u, rfl, hs, .none⟩
  complete := by
    intro eof ts block w left hend hs happlies hf
    cases happlies with
    | none => exact ⟨none, ts, ifWord_other hend hs hf, rfl, hs⟩
    | @block entries v htrail hdiff =>
      simp only [List.cons_append, List.append_assoc, List.nil_append] at hs
      obtain ⟨ts₁, hs₁, hclause⟩ := ifWord_of_spells (.ended eof) hs
      obtain ⟨brace, ts₂, hbrace, hs₂⟩ := expect_mark (.ended eof) hs₁
      have hlen : entries.length ≤ ts₂.length + 1 := by
        have := htrail.length_le fun e w h ↦ by
          obtain ⟨v, rfl⟩ := isEntry_symbols h
          exact List.cons_ne_nil _ _
        have := hs₂.length_eq
        simp at this
        omega
      obtain ⟨ts₃, hentries, hs₃⟩ :=
        entriesUpTo_complete hend rfl htrail [] hlen hdiff hs₂
      obtain ⟨close, rest, hclose, hrest⟩ := expect_mark (.ended eof) hs₃
      have hread : withSteps (fun n ↦ entriesUpTo n {}) (.ended eof) ts₂ =
          .ok (Entries.of ([] ++ entries), ts₃) := hentries
      refine ⟨some (ofEntries entries), rest, hclause.trans ?_, rfl, hrest⟩
      rw [appliesTo]
      refine bind_of_ok ?_
      rw [bind_of_ok hbrace, bind_of_ok hread, bind_of_ok hclose]
      rfl

/-! ### Declarations of actions -/

variable {ns : Option Name} {notes : Annotations}

private theorem isAppliesTo_front_ne {block : Option AppliesTo} {w v : List Symbol} {x : Symbol}
    (h : IsAppliesTo block w) (hword : x ≠ .word "appliesTo") (hv : front v ≠ x) :
    front (w ++ v) ≠ x := by
  cases h with
  | none => exact hv
  | block => exact hword.symm

private theorem isKey_ne_nil (key : String) (w : List Symbol) (h : IsKey key w) : w ≠ [] := by
  obtain ⟨s, rfl, _⟩ := isKey_symbol h
  exact List.cons_ne_nil _ _

private theorem isActionRef_head (ref : ActionRef) (w : List Symbol) (h : IsActionRef ref w) :
    ∃ s v, w = s :: v ∧ s ≠ .mark .leftBracket ∧ s ≠ .mark .rightBracket := by
  cases h with
  | literal => exact ⟨_, _, rfl, nofun, nofun⟩
  | identifier => exact ⟨_, _, rfl, nofun, nofun⟩
  | typed _ hpath =>
    obtain ⟨id, v, rfl, _⟩ := isPath_symbols hpath
    exact ⟨_, _, rfl, nofun, nofun⟩

private theorem actionRefs_recognizes : Recognizes (oneOrBracketed actionRef) id
    (Listed IsActionRef) (· ≠ .mark .doubleColon) := by
  have hrefs := actionRef_recognizes.oneOrBracketed nofun nofun isActionRef_head
  rw [List.map_id_fun] at hrefs
  exact hrefs

/-- The keys and the parents of actions are read, and then what they apply to. -/
theorem action_head (ns : Option Name) (notes : Annotations) {eof : Token}
    (hend : Ends (.ended eof)) {keys : List String} {memberOf : List ActionRef} {k m : List Symbol}
    (hk : Separated .comma IsKey keys k) (hm : IsParents IsActionRef memberOf m)
    (hcomma : front left ≠ .mark .comma) (hin : front left ≠ .word "in")
    (hcolons : front left ≠ .mark .doubleColon)
    (hs : Spells ts (.word "action" :: (k ++ (m ++ left)))) :
    ∃ (spelled : List (String × Span)) (mid : List Token), spelled.map Prod.fst = keys ∧
      Spells mid left ∧ action ns notes (.ended eof) ts = (optionalAppliesTo >>= fun block ↦
        expect (.mark .semicolon) >>= fun _ ↦ pure (spelled.map fun key ↦
          .action ⟨ns, key.1, key.2, ⟨memberOf, block⟩, notes⟩)) (.ended eof) mid := by
  obtain ⟨word, ts₁, hword, hs₁⟩ := expectWord_of_spells (.ended eof) hs
  obtain ⟨⟨first, others⟩, ts₂, hkeys, rfl, hs₂⟩ :=
    (actionName_recognizes.commaSeparated trivial isKey_ne_nil).complete hend hs₁ hk
      ⟨isParents_front_ne hm nofun hcomma, trivial⟩
  obtain ⟨memberOf, mid, hmember, rfl, hmid⟩ :=
    (optionalIn_recognizes actionRefs_recognizes).complete hend hs₂ hm ⟨hin, hcolons⟩
  refine ⟨first :: others, mid, rfl, hmid, ?_⟩
  rw [action, bind_of_ok hword, bind_of_ok hkeys]
  dsimp only
  rw [bind_of_ok hmember]
  rfl

/-- Declarations of actions are recognized. -/
theorem action_recognizes : Recognizes (action ns notes) (List.map Item.statement)
    (fun ss w ↦ IsBody ns notes ss w ∧ front w = .word "action") fun _ ↦ True where
  sound := by
    intro around ts items rest u hend hs h
    rw [action, bind_eq_ok] at h
    obtain ⟨word, ts₁, hword, h⟩ := h
    obtain ⟨u, rfl, hs₁⟩ := expectWord_shows hend hs hword
    rw [bind_eq_ok] at h
    obtain ⟨⟨first, others⟩, ts₂, hkeys, h⟩ := h
    obtain ⟨k, u, rfl, hs₂, hk⟩ :=
      (actionName_recognizes.commaSeparated trivial isKey_ne_nil).sound hend hs₁ hkeys
    dsimp only at h
    rw [bind_eq_ok] at h
    obtain ⟨memberOf, ts₃, hmember, h⟩ := h
    obtain ⟨m, u, rfl, hs₃, hm⟩ :=
      (optionalIn_recognizes actionRefs_recognizes).sound hend hs₂ hmember
    rw [bind_eq_ok] at h
    obtain ⟨block, ts₄, hblock, h⟩ := h
    obtain ⟨a, u, rfl, hs₄, ha⟩ := optionalAppliesTo_recognizes.sound hend hs₃ hblock
    rw [bind_eq_ok] at h
    obtain ⟨stop, ts₅, hstop, h⟩ := h
    obtain ⟨left, rfl, hs₅⟩ := expect_mark_shows hend hs₄ hstop
    obtain ⟨rfl, rfl⟩ := pure_eq_ok.mp h
    refine ⟨.word "action" :: k ++ m ++ a ++ [.mark .semicolon], left, by simp, hs₅, ?_, rfl⟩
    have hbody : IsBody ns notes _ _ := .action hk hm ha
    simpa [Function.comp_def, Item.statement] using hbody
  complete := by
    rintro eof ts ss w left hend hs ⟨hbody, hfront⟩ -
    cases hbody with
    | @action keys memberOf _ k m a hk hm ha =>
      simp only [List.cons_append, List.append_assoc, List.nil_append] at hs
      obtain ⟨spelled, ts₁, rfl, hs₁, hhead⟩ := action_head ns notes hend hk hm
        (isAppliesTo_front_ne ha (by decide) (by simp [front]))
        (isAppliesTo_front_ne ha (by decide) (by simp [front]))
        (isAppliesTo_front_ne ha (by decide) (by simp [front])) hs
      obtain ⟨block, ts₂, hblock, rfl, hs₂⟩ :=
        optionalAppliesTo_recognizes.complete hend hs₁ ha (by simp [front])
      obtain ⟨stop, rest, hstop, hrest⟩ := expect_mark (.ended eof) hs₂
      refine ⟨spelled.map fun key ↦ .action ⟨ns, key.1, key.2, ⟨memberOf, block⟩, notes⟩, rest,
        ?_, ?_, hrest⟩
      · rw [hhead, bind_of_ok hblock, bind_of_ok hstop]
        rfl
      · simp [Function.comp_def, Item.statement]
    | entity => simp at hfront
    | enum => simp at hfront
    | commonType => simp at hfront

end PolicySchema.Text.Grammar
