import PolicySchema.Proofs.Text.BlockRecognition
import PolicySchema.Proofs.Text.LockstepBlocks
import PolicySchema.Proofs.Text.Scanning

/-!
# The tokens that name declarations

A token names a declaration if it stands where the grammar has a name that the declaration
introduces: after the keyword at a place where a declaration may start, or after a comma that
follows another name (`Syntax.Names`). Every declaration that is read is at the stretch of the token
that names it (`namedIn_of_itemsOf`).
-/

namespace PolicySchema.Text

namespace Syntax

/-- Values with a comma after each. -/
inductive Leading {α : Type} (P : α → List Symbol → Prop) : List Symbol → Prop where
  | none : Leading P []
  | more {a u v} : P a u → Leading P v → Leading P (u ++ .mark .comma :: v)

/-- Symbols at the start of a text after which a declaration may start in a namespace. -/
inductive Opens : Option Name → List Symbol → Prop where
  | start : Opens none []
  | after {ns ss u v} : Opens ns u → IsDeclaration ns ss v → Opens ns (u ++ v)
  | inside {ns n notes u v w} : Opens ns u → IsNotes notes v → IsPath n w →
      Opens (some (blockName ns n)) (u ++ (v ++ .word "namespace" :: w) ++ [.mark .leftBrace])

/-- After the symbols at the start of a text, a symbol names a declaration that is introduced. -/
inductive Names : Introduced → List Symbol → Symbol → Prop where
  | commonType {ns notes u v key s} : Opens ns u → IsNotes notes v → IsIdentifier key [s] →
      Names (.commonType ns key) (u ++ v ++ [.word "type"]) s
  | entityType {ns notes u v w key s} : Opens ns u → IsNotes notes v → Leading IsIdentifier w →
      IsIdentifier key [s] → Names (.entityType ns key) (u ++ v ++ .word "entity" :: w) s
  | action {ns notes u v w key s} : Opens ns u → IsNotes notes v → Leading IsKey w →
      IsKey key [s] → Names (.action ns key) (u ++ v ++ .word "action" :: w) s

end Syntax

open Syntax Reader Grammar

/-- A token names what the item introduces, and the item is at its stretch. -/
def Item.NamedIn (item : Item) (tokens : List Token) : Prop :=
  ∃ before t after, tokens = before ++ t :: after ∧
    Names item.statement.introduced (before.map Token.symbol) t.symbol ∧ item.span = t.span

variable {α β : Type} {around : Surroundings} {ts rest : List Token}

/-! ### Taken tokens -/

private def Likeness.same : Likeness where
  token t t' := t' = t
  span s s' := s' = s
  kind h := congrArg _ h
  value h := congrArg _ h
  text h _ := congrArg _ h
  place h := congrArg _ h
  through := by
    rintro a _ b _ rfl rfl
    rfl

private theorem alongside_same (around : Surroundings) :
    Likeness.same.Alongside around around where
  ending := by
    cases around.ending with
    | error f => exact .error ⟨rfl, rfl⟩
    | ok t => exact .ok rfl
  exhausted := by
    rintro span _ rfl
    rfl

private theorem suffix_of_lockstep {p : Reader α} {V : α → α → Prop}
    (hp : Likeness.same.Lockstep V p p) {a : α} (h : p around ts = .ok (a, rest)) :
    rest <:+ ts := by
  have hts : List.Forall₂ Likeness.same.token ts ts := List.forall₂_same.mpr fun _ _ ↦ rfl
  have hsame := hp (alongside_same around) hts
  rw [h] at hsame
  cases hsame with
  | ok hrest =>
    obtain ⟨k, hk, -⟩ := hrest.2
    obtain rfl : rest = ts.drop k := hk
    exact List.drop_suffix k ts

private def Shown (ts : List Token) : Prop := ∀ t ∈ ts, Shows t t.symbol

private theorem Shown.spells (h : Shown ts) : Spells ts (ts.map Token.symbol) :=
  List.forall₂_map_right_iff.mpr (List.forall₂_same.mpr h)

private theorem Shown.right (taken : List Token) (h : Shown (taken ++ rest)) : Shown rest :=
  fun t ht ↦ h t (List.mem_append_right _ ht)

private theorem exists_taken {used left : List Symbol} (h : ts.map Token.symbol = used ++ left)
    (hrest : Spells rest left) (hsuffix : rest <:+ ts) :
    ∃ taken, ts = taken ++ rest ∧ taken.map Token.symbol = used := by
  have hleft : rest.map Token.symbol = left := by
    refine List.forall₂_eq_eq_eq ▸ List.forall₂_map_left_iff.mpr ?_
    exact hrest.imp fun _ _ ht ↦ ht.symbol_eq
  obtain ⟨taken, rfl⟩ := hsuffix
  rw [List.map_append, hleft] at h
  exact ⟨taken, rfl, List.append_cancel_right h⟩

private theorem next_taken (hend : Ends around) {t : Token} (h : next around ts = .ok (t, rest))
    (hkind : t.kind ≠ .endOfInput) : ts = t :: rest := by
  cases ts with
  | nil =>
    obtain ⟨ending, _⟩ := around
    cases ending with
    | error f => cases h
    | ok eof =>
      cases h
      exact absurd ((hend _ rfl).kind_endOfInput_iff.mpr rfl) hkind
  | cons t ts =>
    cases h
    rfl

private theorem expect_taken (hend : Ends around) {kind : TokenKind} (hkind : kind ≠ .endOfInput)
    {t : Token} (h : expect kind around ts = .ok (t, rest)) : ts = t :: rest ∧ t.kind = kind := by
  rw [expect, bind_eq_ok] at h
  obtain ⟨t', mid, hnext, h⟩ := h
  split at h
  · next hk =>
    obtain ⟨rfl, rfl⟩ := pure_eq_ok.mp h
    exact ⟨next_taken hend hnext (hk ▸ hkind), hk⟩
  · exact absurd h unexpected_ne_ok

private theorem expectWord_taken (hend : Ends around) {word : String} {t : Token}
    (h : expectWord word around ts = .ok (t, rest)) : ts = t :: rest ∧ t.symbol = .word word := by
  rw [expectWord, bind_eq_ok] at h
  obtain ⟨t', mid, hnext, h⟩ := h
  split at h
  · next hword =>
    obtain ⟨rfl, rfl⟩ := pure_eq_ok.mp h
    simp only [Token.isWord, Bool.and_eq_true, decide_eq_true_eq, beq_iff_eq] at hword
    refine ⟨next_taken hend hnext ?_, ?_⟩
    · rw [hword.1]
      decide
    · rw [Token.symbol, hword.1, hword.2]
  · exact absurd h unexpected_ne_ok

private theorem eat_taken (hend : Ends around) {m : Mark} (h : eat m around ts = .ok (true, rest)) :
    ∃ t, ts = t :: rest ∧ t.symbol = .mark m := by
  rw [eat, bind_eq_ok] at h
  obtain ⟨t, ts₁, hpeek, h⟩ := h
  split at h
  · next hkind =>
    rw [bind_eq_ok] at h
    obtain ⟨t', ts₂, hnext, h⟩ := h
    obtain ⟨-, rfl⟩ := pure_eq_ok.mp h
    cases ts with
    | nil =>
      obtain ⟨ending, _⟩ := around
      cases ending with
      | error f => cases hpeek
      | ok eof =>
        cases hpeek
        rw [(hend _ rfl).kind_endOfInput_iff.mpr rfl] at hkind
        cases hkind
    | cons t ts =>
      cases hpeek
      cases hnext
      exact ⟨t, rfl, by rw [Token.symbol, hkind]⟩
  · obtain ⟨h, -⟩ := pure_eq_ok.mp h
    cases h

/-! ### Names in declarations -/

private def TakesName (p : Reader (α × Span)) (P : α → List Symbol → Prop) : Prop :=
  ∀ {around ts a rest}, Ends around → Shown ts → p around ts = .ok (a, rest) →
    ∃ t, ts = t :: rest ∧ P a.1 [t.symbol] ∧ a.2 = t.span

private theorem identifier_takesName : TakesName identifier IsIdentifier := by
  intro around ts a rest hend _ h
  rw [identifier, bind_eq_ok] at h
  obtain ⟨t, mid, ht, h⟩ := h
  obtain ⟨rfl, hkind⟩ := expect_taken hend (by decide) ht
  cases hid : Identifier.parse t.text with
  | error e =>
    rw [hid] at h
    exact absurd h fail_ne_ok
  | ok id =>
    rw [hid] at h
    obtain ⟨rfl, rfl⟩ := pure_eq_ok.mp h
    refine ⟨t, rfl, ?_, rfl⟩
    rw [Token.symbol, hkind, ← Identifier.parse_eq_ok_iff.mp hid]
    exact .word id

private theorem actionName_takesName : TakesName actionName IsKey := by
  intro around ts a rest hend hs h
  rw [actionName, bind_eq_ok] at h
  obtain ⟨t, mid, ht, h⟩ := h
  have hcons := next_taken hend ht
  obtain ⟨kind, text, value, start⟩ := t
  cases kind with
  | word =>
    simp only at h
    split at h
    · exact absurd h fail_ne_ok
    · next hword =>
      obtain ⟨rfl, rfl⟩ := pure_eq_ok.mp h
      obtain rfl := hcons (by simp)
      have hshow := hs _ List.mem_cons_self
      cases hshow
      exact ⟨_, rfl, .word hword, rfl⟩
  | literal =>
    obtain ⟨rfl, rfl⟩ := pure_eq_ok.mp h
    exact ⟨_, hcons (by simp), .literal value, rfl⟩
  | mark => exact absurd h unexpected_ne_ok
  | endOfInput => exact absurd h unexpected_ne_ok

private def NameAmong (P : α → List Symbol → Prop) (ts : List Token) (a : α × Span) : Prop :=
  ∃ before t after, ts = before ++ t :: after ∧ Leading P (before.map Token.symbol) ∧
    P a.1 [t.symbol] ∧ a.2 = t.span

private theorem NameAmong.later {P : α → List Symbol → Prop} {t comma : Token} {a b : α × Span}
    (ht : P a.1 [t.symbol]) (hcomma : comma.symbol = .mark .comma) (h : NameAmong P ts b) :
    NameAmong P (t :: comma :: ts) b := by
  obtain ⟨before, t', after, rfl, hbefore, hname⟩ := h
  refine ⟨t :: comma :: before, t', after, rfl, ?_, hname⟩
  rw [List.map_cons, List.map_cons, hcomma]
  exact .more ht hbefore

private theorem repeatUpTo_named {p : Reader (α × Span)} {P : α → List Symbol → Prop}
    (hp : TakesName p P) (hend : Ends around) (n : Nat) :
    ∀ {ts as}, Shown ts →
      repeatUpTo (after .comma p) n around ts = .ok (as, rest) →
      ∀ a ∈ as, ∃ comma mid, ts = comma :: mid ∧ comma.symbol = .mark .comma ∧
        NameAmong P mid a := by
  induction n with
  | zero =>
    intro ts as _ h
    obtain ⟨rfl, -⟩ := pure_eq_ok.mp h
    nofun
  | succ n ih =>
    intro ts as hs h a ha
    rcases repeatUpTo_after_succ_eq_ok.mp h with ⟨rfl, -⟩ | ⟨b, bs, ts₁, ts₂, rfl, heat, hb, hbs⟩
    · cases ha
    · obtain ⟨comma, rfl, hcomma⟩ := eat_taken hend heat
      obtain ⟨t, rfl, hname, hspan⟩ := hp hend (Shown.right [comma] hs) hb
      refine ⟨comma, _, rfl, hcomma, ?_⟩
      rcases List.mem_cons.mp ha with rfl | ha
      · exact ⟨[], t, _, rfl, .none, hname, hspan⟩
      · obtain ⟨comma', mid, rfl, hcomma', hamong⟩ :=
          ih (Shown.right [comma, t] hs) hbs a ha
        exact hamong.later hname hcomma'

private theorem commaSeparated_named {p : Reader (α × Span)} {P : α → List Symbol → Prop}
    (hp : TakesName p P) (hend : Ends around) (hs : Shown ts) {first : α × Span}
    {others : List (α × Span)} (h : commaSeparated p around ts = .ok ((first, others), rest)) :
    ∀ a ∈ first :: others, NameAmong P ts a := by
  rw [commaSeparated, bind_eq_ok] at h
  obtain ⟨b, ts₁, hb, h⟩ := h
  rw [bind_eq_ok] at h
  obtain ⟨bs, ts₂, hbs, h⟩ := h
  obtain ⟨⟨⟩, rfl⟩ := pure_eq_ok.mp h
  obtain ⟨t, rfl, hname, hspan⟩ := hp hend hs hb
  intro a ha
  rcases List.mem_cons.mp ha with rfl | ha
  · exact ⟨[], t, ts₁, rfl, .none, hname, hspan⟩
  · obtain ⟨comma, mid, rfl, hcomma, hamong⟩ :=
      repeatUpTo_named hp hend _ (Shown.right [t] hs) hbs a ha
    exact hamong.later hname hcomma

/-! ### Declarations -/

section

variable {ns : Option Name} {notes : Annotations} {before : List Token} {u v : List Symbol}
  {items : List Item} (hbefore : before.map Token.symbol = u ++ v) (hu : Opens ns u)
  (hv : IsNotes notes v) (hend : Ends around) (hs : Shown ts)

include hbefore hu hv

private theorem namedIn_entityType {keyword : Token} (hkeyword : keyword.symbol = .word "entity")
    {name : Identifier × Span} (h : NameAmong IsIdentifier ts name) (body : EntityType)
    (notes : Annotations) : Item.NamedIn (.entityType ⟨ns, name.1, name.2, body, notes⟩)
      (before ++ keyword :: ts) := by
  obtain ⟨others, t, after, rfl, hothers, hname, hspan⟩ := h
  refine ⟨before ++ keyword :: others, t, after, by simp, ?_, hspan⟩
  rw [List.map_append, List.map_cons, hbefore, hkeyword]
  exact .entityType hu hv hothers hname

include hend hs

private theorem entity_named (h : entity ns notes around ts = .ok (items, rest)) :
    ∀ item ∈ items, item.NamedIn (before ++ ts) := by
  rw [entity, bind_eq_ok] at h
  obtain ⟨keyword, ts₁, hword, h⟩ := h
  obtain ⟨rfl, hkeyword⟩ := expectWord_taken hend hword
  have hs₁ : Shown ts₁ := Shown.right [keyword] hs
  rw [bind_eq_ok] at h
  obtain ⟨b, ts₂, hopens, h⟩ := h
  obtain rfl := opensEnum_stays hend hs₁.spells hopens
  intro item hitem
  cases b with
  | true =>
    rw [if_pos rfl, enumEntity, bind_eq_ok] at h
    obtain ⟨name, ts₃, hname, h⟩ := h
    simp only [bind_eq_ok, pure_eq_ok] at h
    obtain ⟨_, _, -, _, _, -, _, _, -, _, _, -, _, _, -, _, _, -, rfl, -⟩ := h
    obtain ⟨t, rfl, hname, hspan⟩ := identifier_takesName hend hs₁ hname
    rw [List.mem_singleton.mp hitem]
    exact namedIn_entityType hbefore hu hv hkeyword ⟨[], t, ts₃, rfl, .none, hname, hspan⟩ _ _
  | false =>
    rw [if_neg Bool.false_ne_true, standardEntities, bind_eq_ok] at h
    obtain ⟨⟨first, others⟩, ts₃, hnames, h⟩ := h
    simp only [bind_eq_ok, pure_eq_ok] at h
    obtain ⟨_, _, -, _, _, -, _, _, -, _, _, -, rfl, -⟩ := h
    obtain ⟨name, hmem, rfl⟩ := List.mem_map.mp hitem
    exact namedIn_entityType hbefore hu hv hkeyword
      (commaSeparated_named identifier_takesName hend hs₁ hnames name hmem) _ _

private theorem action_named (h : action ns notes around ts = .ok (items, rest)) :
    ∀ item ∈ items, item.NamedIn (before ++ ts) := by
  rw [action, bind_eq_ok] at h
  obtain ⟨keyword, ts₁, hword, h⟩ := h
  obtain ⟨rfl, hkeyword⟩ := expectWord_taken hend hword
  have hs₁ : Shown ts₁ := Shown.right [keyword] hs
  rw [bind_eq_ok] at h
  obtain ⟨⟨first, others⟩, ts₂, hnames, h⟩ := h
  simp only [bind_eq_ok, pure_eq_ok] at h
  obtain ⟨_, _, -, _, _, -, _, _, -, rfl, -⟩ := h
  intro item hitem
  obtain ⟨name, hmem, rfl⟩ := List.mem_map.mp hitem
  obtain ⟨earlier, t, after, rfl, hearlier, hname, hspan⟩ :=
    commaSeparated_named actionName_takesName hend hs₁ hnames name hmem
  refine ⟨before ++ keyword :: earlier, t, after, by simp, ?_, hspan⟩
  rw [List.map_append, List.map_cons, hbefore, hkeyword]
  exact .action hu hv hearlier hname

private theorem commonType_named (h : commonType ns notes around ts = .ok (items, rest)) :
    ∀ item ∈ items, item.NamedIn (before ++ ts) := by
  rw [commonType, bind_eq_ok] at h
  obtain ⟨keyword, ts₁, hword, h⟩ := h
  obtain ⟨rfl, hkeyword⟩ := expectWord_taken hend hword
  rw [bind_eq_ok] at h
  obtain ⟨name, ts₂, hname, h⟩ := h
  simp only [bind_eq_ok, pure_eq_ok] at h
  obtain ⟨_, _, -, _, _, -, _, _, -, rfl, -⟩ := h
  intro item hitem
  rw [List.mem_singleton.mp hitem]
  obtain ⟨t, rfl, hname, hspan⟩ :=
    identifier_takesName hend (Shown.right [keyword] hs) hname
  refine ⟨before ++ [keyword], t, ts₂, by simp, ?_, hspan⟩
  rw [List.map_append, List.map_cons, hbefore, hkeyword]
  exact .commonType hu hv hname

end

private theorem opening_named {ns : Option Name} {stop : TokenKind} {before : List Token}
    {items : List Item} (hbefore : Opens ns (before.map Token.symbol)) (hend : Ends around)
    (hs : Shown ts) (h : opening ns stop around ts = .ok (.items items, rest)) :
    ∀ item ∈ items, item.NamedIn (before ++ ts) := by
  rw [opening, bind_eq_ok] at h
  obtain ⟨t, ts₁, hpeek, h⟩ := h
  obtain ⟨rfl, -⟩ := peek_shows hend hs.spells hpeek
  split at h
  · obtain ⟨h, -⟩ := pure_eq_ok.mp h
    cases h
  rw [bind_eq_ok] at h
  obtain ⟨notes, ts₂, hnotes, h⟩ := h
  obtain ⟨v, left, hsymbols, hleft, hv⟩ := annotations_recognizes.sound hend hs.spells hnotes
  obtain ⟨taken, rfl, rfl⟩ :=
    exists_taken hsymbols hleft (suffix_of_lockstep Likeness.lockstep_annotations hnotes)
  have hs₂ := Shown.right taken hs
  -- A declaration of one kind, after its annotations.
  have hbody {p : Reader (List Item)} (hp : p around ts₂ = .ok (items, rest) →
      ∀ item ∈ items, item.NamedIn ((before ++ taken) ++ ts₂))
      (h : (p >>= fun items ↦ pure (Opening.items items)) around ts₂ =
        .ok (Opening.items items, rest)) :
      ∀ item ∈ items, item.NamedIn (before ++ (taken ++ ts₂)) := by
    rw [bind_eq_ok] at h
    obtain ⟨_, _, hitems, h⟩ := h
    obtain ⟨⟨⟩, rfl⟩ := pure_eq_ok.mp h
    rw [← List.append_assoc]
    exact hp hitems
  have hprefix : (before ++ taken).map Token.symbol =
      before.map Token.symbol ++ taken.map Token.symbol := List.map_append
  rw [bind_eq_ok] at h
  obtain ⟨t', ts₃, hpeek', h⟩ := h
  obtain ⟨rfl, -⟩ := peek_shows hend hs₂.spells hpeek'
  split at h
  · rw [blockHeader] at h
    simp only [bind_eq_ok, pure_eq_ok] at h
    obtain ⟨_, _, -, _, _, -, _, _, -, h, -⟩ := h
    cases h
  · split at h
    · exact hbody (entity_named hprefix hbefore hv hend hs₂) h
    · split at h
      · exact hbody (action_named hprefix hbefore hv hend hs₂) h
      · split at h
        · exact hbody (commonType_named hprefix hbefore hv hend hs₂) h
        · obtain ⟨_, _, _, h⟩ := bind_eq_ok.mp h
          exact absurd h unexpected_ne_ok

/-! ### Sequences of declarations -/

private theorem declarations_taken (hend : Ends around) (hs : Shown ts) {n : Nat}
    {ns : Option Name} {stop : TokenKind} {items : List Item}
    (h : declarations around n ns stop ts = ⟨items, .ok rest⟩) :
    ∃ taken, ts = taken ++ rest ∧
      IsDeclarations ns (items.map Item.statement) (taken.map Token.symbol) := by
  obtain ⟨used, left, hsymbols, hleft, hall, -⟩ := declarations_sound hend n hs.spells h
  have hts : List.Forall₂ Likeness.same.token ts ts := List.forall₂_same.mpr fun _ _ ↦ rfl
  have hsame := (Likeness.lockstep_declarations (alongside_same around) n ns stop
    hts).outcome
  rw [h] at hsame
  cases hsame with
  | ok hrest =>
    obtain ⟨k, rfl, -⟩ := hrest
    obtain ⟨taken, htaken, rfl⟩ := exists_taken hsymbols hleft (List.drop_suffix k ts)
    exact ⟨taken, htaken, hall⟩

private theorem skip_taken (hend : Ends around) {m : Mark} {items : List Item}
    (h : skip around (.mark m) ts = ⟨items, .ok rest⟩) :
    items = [] ∧ ∃ t, ts = t :: rest ∧ t.symbol = .mark m := by
  obtain ⟨rfl, t, ht⟩ := skip_eq_ok.mp h
  obtain ⟨rfl, hkind⟩ := expect_taken hend (by simp) ht
  exact ⟨rfl, t, rfl, by rw [Token.symbol, hkind]⟩

-- What follows the name of a block is a left brace, the declarations of the block, a right brace
-- and what is declared after the block.
private theorem block_taken (hend : Ends around) (hs : Shown ts) {n : Nat} {inside ns : Option Name}
    {stop : TokenKind} {all : List Item}
    (h : ((skip around (.mark .leftBrace) ts).andThen fun ts ↦
      (declarations around n inside (.mark .rightBrace) ts).andThen fun ts ↦
        (skip around (.mark .rightBrace) ts).andThen fun ts ↦
          declarations around n ns stop ts) = ⟨all, .ok rest⟩) :
    ∃ brace body close after inner more, ts = brace :: (body ++ close :: after) ∧
      brace.symbol = .mark .leftBrace ∧ close.symbol = .mark .rightBrace ∧
      declarations around n inside (.mark .rightBrace) (body ++ close :: after) =
        ⟨inner, .ok (close :: after)⟩ ∧
      IsDeclarations inside (inner.map Item.statement) (body.map Token.symbol) ∧
      declarations around n ns stop after = ⟨more, .ok rest⟩ ∧ all = inner ++ more := by
  obtain ⟨_, ts₁, _, hopen, h₁, rfl⟩ := andThen_eq_ok.mp h
  obtain ⟨rfl, brace, rfl, hbrace⟩ := skip_taken hend hopen
  obtain ⟨inner, ts₂, _, hread, h₂, rfl⟩ := andThen_eq_ok.mp h₁
  obtain ⟨_, after, more, hskip, hmore, rfl⟩ := andThen_eq_ok.mp h₂
  obtain ⟨rfl, close, rfl, hclose⟩ := skip_taken hend hskip
  obtain ⟨body, rfl, hinner⟩ := declarations_taken hend (Shown.right [brace] hs) hread
  exact ⟨brace, body, close, after, inner, more, rfl, hbrace, hclose, hread, hinner, hmore, rfl⟩

private theorem declarations_named (hend : Ends around) (n : Nat) :
    ∀ {ns stop} before {ts items rest}, Opens ns (before.map Token.symbol) → Shown ts →
      declarations around n ns stop ts = ⟨items, .ok rest⟩ →
      ∀ item ∈ items, item.NamedIn (before ++ ts) ∨
        ∃ name notes span, item = .block name notes span := by
  -- On the steps. The tokens that were taken already go before those that are left, and a
  -- declaration may start after them.
  induction n with
  | zero =>
    intro ns stop before ts items rest _ _ h
    exact absurd h declarations_zero_ne_ok
  | succ n ih =>
    intro ns stop before ts items rest hbefore hs h item hitem
    rw [declarations] at h
    cases hopen : opening ns stop around ts with
    | error f =>
      simp only [hopen] at h
      cases h
    | ok r =>
      obtain ⟨o, ts₁⟩ := r
      rcases opening_sound hend hs.spells hopen with
        ⟨rfl, rfl, -⟩ | ⟨used, left, hsymbols, hs₁, hused⟩
      · simp only [hopen] at h
        cases h
        cases hitem
      · obtain ⟨taken, rfl, htaken⟩ := exists_taken hsymbols hs₁
          (suffix_of_lockstep (Likeness.lockstep_opening ns stop) hopen)
        have hrest := Shown.right taken hs
        cases hused with
        | items hdecl =>
          simp only [hopen] at h
          obtain ⟨more, hmore, rfl⟩ := after_eq_ok.mp h
          rcases List.mem_append.mp hitem with hitem | hitem
          · exact .inl (opening_named hbefore hend hs hopen item hitem)
          · have hnext : Opens ns ((before ++ taken).map Token.symbol) := by
              rw [List.map_append, htaken]
              exact .after hbefore hdecl
            rw [← List.append_assoc]
            exact ih _ hnext hrest hmore item hitem
        | @block n' notes span v w hv hw =>
          simp only [hopen] at h
          obtain ⟨_, hblock, rfl⟩ := after_eq_ok.mp h
          obtain ⟨brace, body, close, after, inner, more, rfl, hbrace, hclose, hread, hinner, hmore,
            rfl⟩ := block_taken hend hrest hblock
          have hs₂ := Shown.right [brace] hrest
          have hinside : Opens (some (blockName ns n'))
              ((before ++ taken ++ [brace]).map Token.symbol) := by
            rw [List.map_append, List.map_append, htaken, List.map_singleton, hbrace]
            exact .inside hbefore hv hw
          have hafter : Opens ns
              ((before ++ (taken ++ brace :: body ++ [close])).map Token.symbol) := by
            have hopens := Opens.after hbefore (.block hv hw hinner)
            simpa only [List.map_append, List.map_cons, List.map_nil, htaken, hbrace, hclose,
              List.append_assoc, List.cons_append] using hopens
          have hnamed := ih _ hinside hs₂ hread item
          have hnamed' := ih _ hafter (Shown.right [close] (Shown.right body hs₂)) hmore item
          simp only [List.append_assoc, List.cons_append, List.nil_append] at hnamed hnamed' hitem ⊢
          rcases List.mem_cons.mp hitem with rfl | hitem
          · exact .inr ⟨_, _, _, rfl⟩
          · rcases List.mem_append.mp hitem with hitem | hitem
            · exact hnamed hitem
            · exact hnamed' hitem

/-- Every item of a text that is read is named by a token of the text, unless it is a block. -/
theorem namedIn_of_itemsOf {exhausted : StackMap} {text : String} {items : List Item}
    (h : itemsOf exhausted (scan text) = ⟨items, .ok rest⟩) {item : Item} (hitem : item ∈ items) :
    item.NamedIn (scan text).tokens ∨ ∃ name notes span, item = .block name notes span :=
  declarations_named (scan_ends text exhausted) _ [] .start (fun _ ht ↦ shows_of_mem_scan ht) h
    item hitem

end PolicySchema.Text
