import Mathlib.Data.List.Forall2
import PolicySchema.Proofs.Text.Syntax

/-!
# Readers and the symbols that they take

Tokens are related to the symbols that they show, and a reader recognizes a language when what it
takes shows a sentence of the language, and it takes every sentence that is followed by a symbol
which cannot extend it (`Recognizes`). The combinators of readers carry recognition from their parts
to the whole.
-/

namespace PolicySchema.Text

/-- A token shows a symbol. What a word or a mark stands for is what is written. -/
inductive Shows : Token → Symbol → Prop where
  | word (text : String) (start : Position) : Shows ⟨.word, text, text, start⟩ (.word text)
  | literal (text value : String) (start : Position) :
      Shows ⟨.literal, text, value, start⟩ (.literal value)
  | mark (m : Mark) (text value : String) (start : Position) :
      Shows ⟨.mark m, text, value, start⟩ (.mark m)
  | endOfInput (text value : String) (start : Position) :
      Shows ⟨.endOfInput, text, value, start⟩ .endOfInput

/-- Tokens show symbols one by one. -/
abbrev Spells (ts : List Token) (u : List Symbol) : Prop := List.Forall₂ Shows ts u

/-- The symbol that is met next, which is the end of input if there are no more. -/
def front (u : List Symbol) : Symbol := u.head?.getD .endOfInput

/-- The end of the input stands in front of no symbols. -/
@[simp] theorem front_nil : front [] = .endOfInput := rfl

/-- The first symbol stands in front. -/
@[simp] theorem front_cons (s : Symbol) (u : List Symbol) : front (s :: u) = s := rfl

/-- A token shows its symbol and no other. -/
theorem Shows.symbol_eq {t : Token} {s : Symbol} (h : Shows t s) : t.symbol = s := by
  cases h <;> rfl

/-- A token is a mark exactly when it shows the mark. -/
theorem Shows.kind_mark_iff {t : Token} {s : Symbol} (h : Shows t s) {m : Mark} :
    t.kind = .mark m ↔ s = .mark m := by
  cases h <;> simp

/-- A token is a word exactly when it shows its text as a word. -/
theorem Shows.kind_word_iff {t : Token} {s : Symbol} (h : Shows t s) :
    t.kind = .word ↔ s = .word t.text := by
  cases h <;> simp

/-- A token is a literal exactly when it shows its value as a literal. -/
theorem Shows.kind_literal_iff {t : Token} {s : Symbol} (h : Shows t s) :
    t.kind = .literal ↔ s = .literal t.value := by
  cases h <;> simp

/-- A token is the end of input exactly when it shows it. -/
theorem Shows.kind_endOfInput_iff {t : Token} {s : Symbol} (h : Shows t s) :
    t.kind = .endOfInput ↔ s = .endOfInput := by
  cases h <;> simp

/-- A token is a given word exactly when it shows it. -/
theorem Shows.isWord_iff {t : Token} {s : Symbol} (h : Shows t s) {word : String} :
    t.isWord word = true ↔ s = .word word := by
  cases h <;> simp [Token.isWord]

/-- What begins with a symbol before the end is the symbol and more. -/
theorem eq_cons_of_front {u : List Symbol} {s : Symbol} (h : front u = s) (hs : s ≠ .endOfInput) :
    u = s :: u.tail := by
  cases u with
  | nil => exact absurd h.symm hs
  | cons => rw [← h]; rfl

/-- What follows the last token is the end of input, if it is not a failure. -/
def Ends (around : Surroundings) : Prop := ∀ t, around.ending = .ok t → Shows t .endOfInput

/-- The end of input follows the last token, and there is enough stack. -/
def Surroundings.ended (eof : Token) : Surroundings := ⟨.ok eof, .ample⟩

/-- Values that take symbols are no more than the symbols. -/
theorem Syntax.Repeated.length_le {α : Type} {P : α → List Symbol → Prop} {as : List α}
    {u : List Symbol} (hne : ∀ a u, P a u → u ≠ []) (h : Syntax.Repeated P as u) :
    as.length ≤ u.length := by
  induction h with
  | none => exact Nat.le_refl _
  | more ha _ ih =>
    have := List.length_pos_iff.mpr (hne _ _ ha)
    simp only [List.length_append, List.length_cons]
    omega

/-- Values with a mark between them begin as the first of them does. -/
theorem Syntax.Separated.begins {α : Type} {m : Mark} {P : α → List Symbol → Prop}
    {Q : Symbol → Prop} {as : List α} {w : List Symbol} (h : Separated m P as w)
    (hbegins : ∀ a u, P a u → ∃ s v, u = s :: v ∧ Q s) : ∃ s v, w = s :: v ∧ Q s := by
  cases h with
  | last ha => exact hbegins _ _ ha
  | more ha _ =>
    obtain ⟨s, v, rfl, hs⟩ := hbegins _ _ ha
    exact ⟨s, _, rfl, hs⟩

/-- Values that take symbols are no more than the symbols. -/
theorem Syntax.Separated.length_le {α : Type} {m : Mark} {P : α → List Symbol → Prop} {as : List α}
    {u : List Symbol} (hne : ∀ a u, P a u → u ≠ []) (h : Separated m P as u) :
    as.length ≤ u.length := by
  induction h with
  | last ha => exact List.length_pos_iff.mpr (hne _ _ ha)
  | more ha _ ih => simp only [List.length_append, List.length_cons]; omega

/-- Values that take symbols are no more than the symbols. -/
theorem Syntax.Trailing.length_le {α : Type} {P : α → List Symbol → Prop} {as : List α}
    {u : List Symbol} (hne : ∀ a u, P a u → u ≠ []) (h : Trailing P as u) :
    as.length ≤ u.length := by
  induction h with
  | none => exact Nat.le_refl _
  | last ha => exact List.length_pos_iff.mpr (hne _ _ ha)
  | more ha _ ih => simp only [List.length_append, List.length_cons]; omega

/-- Values may be repeated after others. -/
theorem Syntax.Repeated.append {α : Type} {P : α → List Symbol → Prop} {as bs : List α}
    {u v : List Symbol} (h : Syntax.Repeated P as u) (hrest : Syntax.Repeated P bs v) :
    Syntax.Repeated P (as ++ bs) (u ++ v) := by
  induction h with
  | none => exact hrest
  | more ha _ ih => simpa [List.append_assoc] using Syntax.Repeated.more ha ih

/-- Values with a comma after each of them. -/
abbrev Syntax.Punctuated {α : Type} (P : α → List Symbol → Prop) :
    List α → List Symbol → Prop :=
  Syntax.Repeated fun a u ↦ ∃ v, P a v ∧ u = v ++ [.mark .comma]

/-- Values with a comma after each of them may stand before others. -/
theorem Syntax.Punctuated.trailing {α : Type} {P : α → List Symbol → Prop} {as bs : List α}
    {u v : List Symbol} (h : Punctuated P as u) (hrest : Trailing P bs v) :
    Trailing P (as ++ bs) (u ++ v) := by
  induction h with
  | none => exact hrest
  | more ha _ ih =>
    obtain ⟨w, hw, rfl⟩ := ha
    simpa using Trailing.more hw ih

namespace Reader

open Syntax

variable {α β : Type} {around : Surroundings} {ts rest : List Token}
  {u left : List Symbol}

/-! ### Success of the primitive readers -/

/-- Reading on succeeds exactly when both parts do. -/
theorem bind_eq_ok {p : Reader α} {f : α → Reader β} {b : β} :
    (p >>= f) around ts = .ok (b, rest) ↔
      ∃ a mid, p around ts = .ok (a, mid) ∧ f a around mid = .ok (b, rest) := by
  change Reader.bind p f around ts = _ ↔ _
  unfold Reader.bind
  cases p around ts with
  | error e => simp
  | ok r => simp [Prod.ext_iff]

/-- Reading on after a success. -/
theorem bind_of_ok {p : Reader α} {f : α → Reader β} {a : α} {mid : List Token}
    (h : p around ts = .ok (a, mid)) : (p >>= f) around ts = f a around mid := by
  change Reader.bind p f around ts = _
  simp only [Reader.bind, h]

/-- Reading nothing gives its value and takes nothing. -/
theorem pure_eq_ok {a b : α} :
    (pure a : Reader α) around ts = .ok (b, rest) ↔ a = b ∧ ts = rest := by
  change (Except.ok (a, ts) : Except Failure (α × List Token)) = _ ↔ _
  simp

/-- A failing reader has no success. -/
theorem fail_ne_ok {cause : Cause} {span : Span} {b : α} :
    (fail cause span : Reader α) around ts ≠ .ok (b, rest) := by
  intro h
  cases h

/-- A reader that meets an unexpected token has no success. -/
theorem unexpected_ne_ok {found : Token} {expected : Expected} {b : α} :
    (unexpected found expected : Reader α) around ts ≠ .ok (b, rest) :=
  fail_ne_ok

/-- A repetition gives no more values if its first step gives none, and else that of its first step
and those of the others. -/
theorem repeatUpTo_succ_eq_ok {step : Reader (Option α)} {n : Nat} {as : List α} :
    repeatUpTo step (n + 1) around ts = .ok (as, rest) ↔
      (as = [] ∧ step around ts = .ok (none, rest)) ∨
      ∃ a more mid, as = a :: more ∧ step around ts = .ok (some a, mid) ∧
        repeatUpTo step n around mid = .ok (more, rest) := by
  rw [repeatUpTo, bind_eq_ok]
  constructor
  · rintro ⟨a?, mid, hstep, h⟩
    cases a? with
    | none =>
      obtain ⟨rfl, rfl⟩ := pure_eq_ok.mp h
      exact .inl ⟨rfl, hstep⟩
    | some a =>
      obtain ⟨more, mid', hmore, h⟩ := bind_eq_ok.mp h
      obtain ⟨rfl, rfl⟩ := pure_eq_ok.mp h
      exact .inr ⟨a, more, mid, rfl, hstep, hmore⟩
  · rintro (⟨rfl, hstep⟩ | ⟨a, more, mid, rfl, hstep, hmore⟩)
    · exact ⟨none, rest, hstep, rfl⟩
    · exact ⟨some a, mid, hstep, bind_of_ok hmore⟩

/-- What is read after a check of the stack is read without it. -/
theorem of_withinStack {cause : Cause} {span : Span} {p : Reader α} {a : α}
    (h : (withinStack cause span >>= fun _ ↦ p) around ts = .ok (a, rest)) :
    p around ts = .ok (a, rest) := by
  rw [bind_eq_ok] at h
  obtain ⟨_, mid, hwithin, h⟩ := h
  unfold withinStack at hwithin
  split at hwithin <;> cases hwithin
  exact h

/-- With enough stack, a check of it makes no difference. -/
theorem withinStack_ended {cause : Cause} {span : Span} {p : Reader α} {eof : Token} :
    (withinStack cause span >>= fun _ ↦ p) (.ended eof) ts = p (.ended eof) ts :=
  bind_of_ok rfl

/-! ### The next token -/

/-- The next token shows the symbol at the front. -/
theorem peek_shows (hend : Ends around) (hs : Spells ts u) {t : Token}
    (h : peek around ts = .ok (t, rest)) : rest = ts ∧ Shows t (front u) := by
  cases hs with
  | nil =>
    obtain ⟨ending, _⟩ := around
    cases ending with
    | error e => cases h
    | ok eof =>
      cases h
      exact ⟨rfl, hend _ rfl⟩
  | cons ht _ =>
    cases h
    exact ⟨rfl, ht⟩

/-- Before the end of a text there is a next token. -/
theorem peek_of_spells {eof : Token} (hend : Ends (.ended eof)) (hs : Spells ts u) :
    ∃ t, peek (.ended eof) ts = .ok (t, ts) ∧ Shows t (front u) := by
  cases hs with
  | nil => exact ⟨eof, rfl, hend _ rfl⟩
  | cons ht _ => exact ⟨_, rfl, ht⟩

/-- The token after the next shows the second symbol. -/
theorem peekSecond_shows (hend : Ends around) (hs : Spells ts u) {t : Token}
    (h : peekSecond around ts = .ok (t, rest)) : rest = ts ∧ Shows t (front u.tail) := by
  cases hs with
  | nil =>
    obtain ⟨ending, _⟩ := around
    cases ending with
    | error e => cases h
    | ok eof =>
      cases h
      exact ⟨rfl, hend _ rfl⟩
  | cons _ hs =>
    cases hs with
    | nil =>
      obtain ⟨ending, _⟩ := around
      cases ending with
      | error e => cases h
      | ok eof =>
        cases h
        exact ⟨rfl, hend _ rfl⟩
    | cons ht _ =>
      cases h
      exact ⟨rfl, ht⟩

/-- Before the end of a text there is a token after the next. -/
theorem peekSecond_of_spells {eof : Token} (hend : Ends (.ended eof)) (hs : Spells ts u) :
    ∃ t, peekSecond (.ended eof) ts = .ok (t, ts) ∧ Shows t (front u.tail) := by
  cases hs with
  | nil => exact ⟨eof, rfl, hend _ rfl⟩
  | cons _ hs =>
    cases hs with
    | nil => exact ⟨eof, rfl, hend _ rfl⟩
    | cons ht _ => exact ⟨_, rfl, ht⟩

/-- A taken token shows the first symbol, or it is the end of input. -/
theorem next_shows (hend : Ends around) (hs : Spells ts u) {t : Token}
    (h : next around ts = .ok (t, rest)) :
    (∃ s left, u = s :: left ∧ Shows t s ∧ Spells rest left) ∨
      (u = [] ∧ rest = [] ∧ Shows t .endOfInput) := by
  cases hs with
  | nil =>
    obtain ⟨ending, _⟩ := around
    cases ending with
    | error e => cases h
    | ok eof =>
      cases h
      exact .inr ⟨rfl, rfl, hend _ rfl⟩
  | cons ht hs =>
    cases h
    exact .inl ⟨_, _, rfl, ht, hs⟩

/-- A token of a kind is taken only if the first symbol is of the kind. -/
theorem expect_shows (hend : Ends around) (hs : Spells ts u) {kind : TokenKind} {t : Token}
    (hk : kind ≠ .endOfInput) (h : expect kind around ts = .ok (t, rest)) :
    t.kind = kind ∧ ∃ s left, u = s :: left ∧ Shows t s ∧ Spells rest left := by
  rw [expect, bind_eq_ok] at h
  obtain ⟨t', mid, hn, h⟩ := h
  split at h
  · next hkind =>
    obtain ⟨rfl, rfl⟩ := pure_eq_ok.mp h
    rcases next_shows hend hs hn with hs | ⟨_, _, he⟩
    · exact ⟨hkind, hs⟩
    · cases he
      exact absurd hkind.symm hk
  · exact absurd h unexpected_ne_ok

/-- A word is taken only if the first symbol is that word. -/
theorem expect_word_shows (hend : Ends around) (hs : Spells ts u) {t : Token}
    (h : expect .word around ts = .ok (t, rest)) :
    ∃ left, u = .word t.text :: left ∧ t.value = t.text ∧ Spells rest left := by
  obtain ⟨hkind, s, left, rfl, ht, hrest⟩ := expect_shows hend hs (by decide) h
  cases ht <;> cases hkind
  exact ⟨left, rfl, rfl, hrest⟩

/-- A literal is taken only if the first symbol is that literal. -/
theorem expect_literal_shows (hend : Ends around) (hs : Spells ts u) {t : Token}
    (h : expect .literal around ts = .ok (t, rest)) :
    ∃ left, u = .literal t.value :: left ∧ Spells rest left := by
  obtain ⟨hkind, s, left, rfl, ht, hrest⟩ := expect_shows hend hs (by decide) h
  cases ht <;> cases hkind
  exact ⟨left, rfl, hrest⟩

/-- A mark is taken only if the first symbol is that mark. -/
theorem expect_mark_shows (hend : Ends around) (hs : Spells ts u) {m : Mark} {t : Token}
    (h : expect (.mark m) around ts = .ok (t, rest)) :
    ∃ left, u = .mark m :: left ∧ Spells rest left := by
  obtain ⟨hkind, s, left, rfl, ht, hrest⟩ := expect_shows hend hs (by nofun) h
  cases ht <;> cases hkind
  exact ⟨left, rfl, hrest⟩

/-- A given word is taken only if it is the first symbol. -/
theorem expectWord_shows (hend : Ends around) (hs : Spells ts u) {word : String} {t : Token}
    (h : expectWord word around ts = .ok (t, rest)) :
    ∃ left, u = .word word :: left ∧ Spells rest left := by
  rw [expectWord, bind_eq_ok] at h
  obtain ⟨t', mid, hn, h⟩ := h
  split at h
  · next hw =>
    obtain ⟨rfl, rfl⟩ := pure_eq_ok.mp h
    simp only [Token.isWord, Bool.and_eq_true, decide_eq_true_eq, beq_iff_eq] at hw
    obtain ⟨hkind, rfl⟩ := hw
    rcases next_shows hend hs hn with ⟨s, left, rfl, ht, hrest⟩ | ⟨_, _, ht⟩
    · cases ht <;> cases hkind
      exact ⟨left, rfl, hrest⟩
    · cases ht
      cases hkind
  · exact absurd h unexpected_ne_ok

/-- A mark is eaten exactly if it is the first symbol. -/
theorem eat_shows (hend : Ends around) (hs : Spells ts u) {m : Mark} {b : Bool}
    (h : eat m around ts = .ok (b, rest)) :
    (b = true ∧ ∃ left, u = .mark m :: left ∧ Spells rest left) ∨
      (b = false ∧ rest = ts ∧ front u ≠ .mark m) := by
  rw [eat, bind_eq_ok] at h
  obtain ⟨t, mid, hp, h⟩ := h
  obtain ⟨rfl, ht⟩ := peek_shows hend hs hp
  split at h
  · next hkind =>
    rw [bind_eq_ok] at h
    obtain ⟨t', mid, hn, h⟩ := h
    obtain ⟨rfl, rfl⟩ := pure_eq_ok.mp h
    rcases next_shows hend hs hn with ⟨s, left, rfl, _, hrest⟩ | ⟨rfl, _, _⟩
    · rw [front_cons] at ht
      cases ht <;> cases hkind
      exact .inl ⟨rfl, left, rfl, hrest⟩
    · cases ht
      cases hkind
  · next hkind =>
    obtain ⟨rfl, rfl⟩ := pure_eq_ok.mp h
    refine .inr ⟨rfl, rfl, fun hf ↦ ?_⟩
    rw [hf] at ht
    cases ht
    exact hkind rfl

/-- A token of the right kind is taken. -/
theorem expect_cons {kind : TokenKind} {t : Token} (h : t.kind = kind) :
    expect kind around (t :: ts) = .ok (t, ts) := by
  rw [expect, bind_of_ok (rfl : next around (t :: ts) = .ok (t, ts)), if_pos h]
  rfl

/-- A token that is the right word is taken. -/
theorem expectWord_cons {word : String} {t : Token} (h : t.isWord word = true) :
    expectWord word around (t :: ts) = .ok (t, ts) := by
  rw [expectWord, bind_of_ok (rfl : next around (t :: ts) = .ok (t, ts)), if_pos h]
  rfl

/-- A word is taken where it stands. -/
theorem expect_word (around : Surroundings) {text : String}
    (hs : Spells ts (.word text :: left)) :
    ∃ t rest, expect .word around ts = .ok (t, rest) ∧ t.text = text ∧ t.value = text ∧
      Spells rest left := by
  cases hs with
  | cons ht hs =>
    cases ht
    exact ⟨_, _, expect_cons rfl, rfl, rfl, hs⟩

/-- A literal is taken where it stands. -/
theorem expect_literal (around : Surroundings) {value : String}
    (hs : Spells ts (.literal value :: left)) :
    ∃ t rest, expect .literal around ts = .ok (t, rest) ∧ t.value = value ∧ Spells rest left := by
  cases hs with
  | cons ht hs =>
    cases ht
    exact ⟨_, _, expect_cons rfl, rfl, hs⟩

/-- A mark is taken where it stands. -/
theorem expect_mark (around : Surroundings) {m : Mark} (hs : Spells ts (.mark m :: left)) :
    ∃ t rest, expect (.mark m) around ts = .ok (t, rest) ∧ Spells rest left := by
  cases hs with
  | cons ht hs =>
    cases ht
    exact ⟨_, _, expect_cons rfl, hs⟩

/-- A given word is taken where it stands. -/
theorem expectWord_of_spells (around : Surroundings) {word : String}
    (hs : Spells ts (.word word :: left)) :
    ∃ t rest, expectWord word around ts = .ok (t, rest) ∧ Spells rest left := by
  cases hs with
  | cons ht hs =>
    cases ht
    exact ⟨_, _, expectWord_cons (by simp [Token.isWord]), hs⟩

/-- A mark is eaten where it stands. -/
theorem eat_mark (around : Surroundings) {m : Mark} (hs : Spells ts (.mark m :: left)) :
    ∃ rest, eat m around ts = .ok (true, rest) ∧ Spells rest left := by
  cases hs with
  | cons ht hs =>
    cases ht
    refine ⟨_, ?_, hs⟩
    rw [eat, bind_of_ok rfl, if_pos rfl]
    rfl

/-- A mark is not eaten where another symbol stands. -/
theorem eat_other {eof : Token} (hend : Ends (.ended eof)) (hs : Spells ts u) {m : Mark}
    (h : front u ≠ .mark m) : eat m (.ended eof) ts = .ok (false, ts) := by
  obtain ⟨t, hp, ht⟩ := peek_of_spells hend hs
  have hk : t.kind ≠ .mark m := by
    intro hk
    have hsym := ht.symbol_eq
    rw [Token.symbol, hk] at hsym
    exact h hsym.symm
  rw [eat, bind_of_ok hp, if_neg hk]
  rfl

/-- A clause that begins with a word is read exactly if its word is the first symbol. -/
theorem ifWord_shows (hend : Ends around) (hs : Spells ts u) {word : String} {p q : Reader α}
    {a : α} (h : (peek >>= fun t ↦ if t.isWord word then next >>= fun _ ↦ p else q) around ts =
      .ok (a, rest)) :
    (∃ mid left, u = .word word :: left ∧ Spells mid left ∧ p around mid = .ok (a, rest)) ∨
      q around ts = .ok (a, rest) := by
  rw [bind_eq_ok] at h
  obtain ⟨t, ts₁, hpeek, h⟩ := h
  obtain ⟨rfl, ht⟩ := peek_shows hend hs hpeek
  split at h
  · next hword =>
    rw [bind_eq_ok] at h
    obtain ⟨t', ts₂, hnext, h⟩ := h
    rw [eq_cons_of_front (ht.isWord_iff.mp hword) nofun] at hs ⊢
    cases hs with
    | cons _ hs =>
      cases hnext
      exact .inl ⟨_, _, rfl, hs, h⟩
  · exact .inr h

/-- A clause is read where its word stands. -/
theorem ifWord_of_spells (around : Surroundings) {word : String} {p q : Reader α}
    (hs : Spells ts (.word word :: left)) :
    ∃ mid, Spells mid left ∧
      (peek >>= fun t ↦ if t.isWord word then next >>= fun _ ↦ p else q) around ts =
        p around mid := by
  cases hs with
  | cons ht hs =>
    refine ⟨_, hs, ?_⟩
    rw [bind_of_ok rfl, if_pos (ht.isWord_iff.mpr rfl), bind_of_ok rfl]

/-- A clause is left out where another symbol stands. -/
theorem ifWord_other {eof : Token} (hend : Ends (.ended eof)) (hs : Spells ts u) {word : String}
    {p q : Reader α} (h : front u ≠ .word word) :
    (peek >>= fun t ↦ if t.isWord word then next >>= fun _ ↦ p else q) (.ended eof) ts =
      q (.ended eof) ts := by
  obtain ⟨t, hpeek, ht⟩ := peek_of_spells hend hs
  rw [bind_of_ok hpeek, if_neg (by rw [ht.isWord_iff]; exact h)]

/-- Which reader goes on is told by the mark at the front. -/
theorem ifMark_shows (hend : Ends around) (hs : Spells ts u) {m : Mark} {p q : Reader α} {a : α}
    (h : (peek >>= fun t ↦ if t.kind = .mark m then p else q) around ts = .ok (a, rest)) :
    (front u = .mark m ∧ p around ts = .ok (a, rest)) ∨
      (front u ≠ .mark m ∧ q around ts = .ok (a, rest)) := by
  rw [bind_eq_ok] at h
  obtain ⟨t, ts₁, hpeek, h⟩ := h
  obtain ⟨rfl, ht⟩ := peek_shows hend hs hpeek
  simp only [ht.kind_mark_iff] at h
  split at h
  · next hm => exact .inl ⟨hm, h⟩
  · next hm => exact .inr ⟨hm, h⟩

/-- Before the mark the first reader goes on. -/
theorem ifMark_of_front {eof : Token} (hend : Ends (.ended eof)) (hs : Spells ts u) {m : Mark}
    {p q : Reader α} (h : front u = .mark m) :
    (peek >>= fun t ↦ if t.kind = .mark m then p else q) (.ended eof) ts = p (.ended eof) ts := by
  obtain ⟨t, hpeek, ht⟩ := peek_of_spells hend hs
  rw [bind_of_ok hpeek, if_pos (ht.kind_mark_iff.mpr h)]

/-- Before another symbol the second reader goes on. -/
theorem ifMark_other {eof : Token} (hend : Ends (.ended eof)) (hs : Spells ts u) {m : Mark}
    {p q : Reader α} (h : front u ≠ .mark m) :
    (peek >>= fun t ↦ if t.kind = .mark m then p else q) (.ended eof) ts = q (.ended eof) ts := by
  obtain ⟨t, hpeek, ht⟩ := peek_of_spells hend hs
  rw [bind_of_ok hpeek, if_neg (mt ht.kind_mark_iff.mp h)]

/-- A literal at the front is taken before the first reader goes on. -/
theorem ifLiteral_shows (hend : Ends around) (hs : Spells ts u) {p : Token → Reader α}
    {q : Reader α} {a : α} (h : (peek >>= fun t ↦ if t.kind = .literal then next >>= p else q)
      around ts = .ok (a, rest)) :
    (∃ t mid left, u = .literal t.value :: left ∧ Spells mid left ∧
        p t around mid = .ok (a, rest)) ∨
      q around ts = .ok (a, rest) := by
  rw [bind_eq_ok] at h
  obtain ⟨t, ts₁, hpeek, h⟩ := h
  obtain ⟨rfl, ht⟩ := peek_shows hend hs hpeek
  split at h
  · next hliteral =>
    rw [bind_eq_ok] at h
    obtain ⟨t', ts₂, hnext, h⟩ := h
    rw [eq_cons_of_front (ht.kind_literal_iff.mp hliteral) nofun] at hs ⊢
    cases hs with
    | cons _ hs =>
      cases hnext
      cases hpeek
      exact .inl ⟨t, _, _, rfl, hs, h⟩
  · exact .inr h

/-- Before a literal the first reader goes on after it. -/
theorem ifLiteral_of_spells (around : Surroundings) {p : Token → Reader α} {q : Reader α}
    {value : String} (hs : Spells ts (.literal value :: left)) :
    ∃ t mid, t.value = value ∧ Spells mid left ∧
      (peek >>= fun t ↦ if t.kind = .literal then next >>= p else q) around ts =
        p t around mid := by
  cases hs with
  | cons ht hs =>
    cases ht
    exact ⟨_, _, rfl, hs, rfl⟩

/-- Before another symbol the second reader goes on. -/
theorem ifLiteral_other {eof : Token} (hend : Ends (.ended eof)) (hs : Spells ts u)
    {p : Token → Reader α} {q : Reader α} (h : ∀ value, front u ≠ .literal value) :
    (peek >>= fun t ↦ if t.kind = .literal then next >>= p else q) (.ended eof) ts =
      q (.ended eof) ts := by
  obtain ⟨t, hpeek, ht⟩ := peek_of_spells hend hs
  rw [bind_of_ok hpeek, if_neg (mt ht.kind_literal_iff.mp (h _))]

/-! ### Recognition -/

/-- A reader recognizes a language: what it takes is a sentence of the value that it gives, seen
through `view`, and it takes every sentence that stands before a symbol of the given kind. -/
structure Recognizes (p : Reader β) (view : β → α) (P : α → List Symbol → Prop)
    (follow : Symbol → Prop) : Prop where
  sound : ∀ {around ts b rest u}, Ends around → Spells ts u → p around ts = .ok (b, rest) →
    ∃ used left, u = used ++ left ∧ Spells rest left ∧ P (view b) used
  complete : ∀ {eof ts a used left}, Ends (.ended eof) → Spells ts (used ++ left) → P a used →
    follow (front left) →
      ∃ b rest, p (.ended eof) ts = .ok (b, rest) ∧ view b = a ∧ Spells rest left

section Lists

variable {m : Mark} {p : Reader β} {view : β → α} {P : α → List Symbol → Prop}
  {follow : Symbol → Prop}

/-- A value after a mark, if the mark is there. -/
def after (m : Mark) (p : Reader β) : Reader (Option β) := do
  if ← eat m then
    let a ← p
    pure (some a)
  else pure none

/-- A value is read after a mark if the mark is there. -/
theorem after_eq_ok {b? : Option β} :
    after m p around ts = .ok (b?, rest) ↔
      (b? = none ∧ eat m around ts = .ok (false, rest)) ∨
      ∃ b mid, b? = some b ∧ eat m around ts = .ok (true, mid) ∧ p around mid = .ok (b, rest) := by
  rw [after, bind_eq_ok]
  constructor
  · rintro ⟨found, mid, he, h⟩
    cases found with
    | false =>
      obtain ⟨rfl, rfl⟩ := pure_eq_ok.mp h
      exact .inl ⟨rfl, he⟩
    | true =>
      rw [if_pos rfl, bind_eq_ok] at h
      obtain ⟨b, mid', hb, h⟩ := h
      obtain ⟨rfl, rfl⟩ := pure_eq_ok.mp h
      exact .inr ⟨b, mid, rfl, he, hb⟩
  · rintro (⟨rfl, he⟩ | ⟨b, mid, rfl, he, hb⟩)
    · exact ⟨false, rest, he, rfl⟩
    · exact ⟨true, mid, he, bind_of_ok hb⟩

/-- Values are read after marks as long as the marks are there. -/
theorem repeatUpTo_after_succ_eq_ok {n : Nat} {bs : List β} :
    repeatUpTo (after m p) (n + 1) around ts = .ok (bs, rest) ↔
      (bs = [] ∧ eat m around ts = .ok (false, rest)) ∨
      ∃ b more mid mid', bs = b :: more ∧ eat m around ts = .ok (true, mid) ∧
        p around mid = .ok (b, mid') ∧ repeatUpTo (after m p) n around mid' = .ok (more, rest) := by
  rw [repeatUpTo_succ_eq_ok]
  constructor
  · rintro (⟨rfl, ha⟩ | ⟨b, more, mid', rfl, ha, hmore⟩)
    · obtain ⟨-, he⟩ | ⟨_, _, ⟨⟩, _⟩ := after_eq_ok.mp ha
      exact .inl ⟨rfl, he⟩
    · obtain ⟨⟨⟩, _⟩ | ⟨_, mid, ⟨⟩, he, hb⟩ := after_eq_ok.mp ha
      exact .inr ⟨b, more, mid, mid', rfl, he, hb, hmore⟩
  · rintro (⟨rfl, he⟩ | ⟨b, more, mid, mid', rfl, he, hb, hmore⟩)
    · exact .inl ⟨rfl, after_eq_ok.mpr (.inl ⟨rfl, he⟩)⟩
    · exact .inr ⟨b, more, mid', rfl, after_eq_ok.mpr (.inr ⟨b, mid, rfl, he, hb⟩), hmore⟩

/-- Values after marks continue a sequence that began with a value. -/
theorem repeatUpTo_after_sound (hp : Recognizes p view P follow) (hend : Ends around) (n : Nat) :
    ∀ {ts u bs rest}, Spells ts u → repeatUpTo (after m p) n around ts = .ok (bs, rest) →
      ∃ used left, u = used ++ left ∧ Spells rest left ∧
        ∀ a v, P a v → Separated m P (a :: bs.map view) (v ++ used) := by
  induction n with
  | zero =>
    intro ts u bs rest hs h
    obtain ⟨rfl, rfl⟩ := pure_eq_ok.mp h
    exact ⟨[], u, rfl, hs, fun a v ha ↦ by simpa using Separated.last ha⟩
  | succ n ih =>
    intro ts u bs rest hs h
    rcases repeatUpTo_after_succ_eq_ok.mp h with
      ⟨rfl, he⟩ | ⟨b, more, mid, mid', rfl, he, hb, hmore⟩
    · obtain ⟨⟨⟩, _⟩ | ⟨-, rfl, -⟩ := eat_shows hend hs he
      exact ⟨[], u, rfl, hs, fun a v ha ↦ by simpa using Separated.last ha⟩
    · obtain ⟨-, left, rfl, hmid⟩ | ⟨⟨⟩, _⟩ := eat_shows hend hs he
      obtain ⟨w, left, rfl, hmid', hw⟩ := hp.sound hend hmid hb
      obtain ⟨used, left, rfl, hleft, hsep⟩ := ih hmid' hmore
      refine ⟨.mark m :: w ++ used, left, by simp, hleft, fun a v ha ↦ ?_⟩
      simpa using Separated.more ha (hsep _ _ hw)

/-- Without another mark no value is read. -/
theorem repeatUpTo_after_stop {eof : Token} (hend : Ends (.ended eof)) (hs : Spells ts u)
    (h : front u ≠ .mark m) (n : Nat) :
    repeatUpTo (after m p) n (.ended eof) ts = .ok ([], ts) := by
  cases n with
  | zero => rfl
  | succ n => exact repeatUpTo_after_succ_eq_ok.mpr (.inl ⟨rfl, eat_other hend hs h⟩)

/-- All values after marks are read. -/
theorem repeatUpTo_after_complete (hp : Recognizes p view P follow) (hm : follow (.mark m))
    {eof : Token} (hend : Ends (.ended eof)) (hnext : front left ≠ .mark m)
    (hlast : follow (front left)) {as : List α} {w : List Symbol} (hsep : Separated m P as w) :
    ∀ {n ts}, as.length ≤ n → Spells ts (.mark m :: w ++ left) →
      ∃ bs rest, repeatUpTo (after m p) n (.ended eof) ts = .ok (bs, rest) ∧ bs.map view = as ∧
        Spells rest left := by
  induction hsep with
  | last ha =>
    intro n ts hn hs
    obtain ⟨n, rfl⟩ : ∃ m, n = m + 1 := ⟨n - 1, by simp at hn; omega⟩
    obtain ⟨mid, he, hmid⟩ := eat_mark (.ended eof) hs
    obtain ⟨b, rest, hb, rfl, hleft⟩ := hp.complete hend hmid ha hlast
    have hstop := repeatUpTo_after_stop (p := p) hend hleft hnext n
    exact ⟨[b], rest, repeatUpTo_after_succ_eq_ok.mpr (.inr ⟨b, [], mid, rest, rfl, he, hb, hstop⟩),
      rfl, hleft⟩
  | more ha _ ih =>
    intro n ts hn hs
    obtain ⟨n, rfl⟩ : ∃ m, n = m + 1 := ⟨n - 1, by simp at hn; omega⟩
    rw [List.cons_append, List.append_assoc, List.cons_append] at hs
    obtain ⟨mid, he, hmid⟩ := eat_mark (.ended eof) hs
    obtain ⟨b, mid', hb, rfl, hmid'⟩ := hp.complete hend hmid ha hm
    obtain ⟨bs, rest, hbs, rfl, hleft⟩ := ih (by simpa using hn) hmid'
    exact ⟨b :: bs, rest,
      repeatUpTo_after_succ_eq_ok.mpr (.inr ⟨b, bs, mid, mid', rfl, he, hb, hbs⟩), rfl, hleft⟩

/-- One or more values with commas between them are recognized as the values are. -/
theorem Recognizes.commaSeparated (hp : Recognizes p view P follow)
    (hcomma : follow (.mark .comma)) (hne : ∀ a u, P a u → u ≠ []) :
    Recognizes (Reader.commaSeparated p) (fun r ↦ view r.1 :: r.2.map view) (Separated .comma P)
      (fun s ↦ s ≠ .mark .comma ∧ follow s) where
  sound := by
    intro around ts b rest u hend hs h
    rw [Reader.commaSeparated, bind_eq_ok] at h
    obtain ⟨first, mid, hfirst, h⟩ := h
    rw [bind_eq_ok] at h
    obtain ⟨others, mid', hothers, h⟩ := h
    obtain ⟨rfl, rfl⟩ := pure_eq_ok.mp h
    obtain ⟨v, left, rfl, hmid, hP⟩ := hp.sound hend hs hfirst
    obtain ⟨used, left', rfl, hleft, hsep⟩ := repeatUpTo_after_sound hp hend _ hmid hothers
    exact ⟨v ++ used, left', by simp, hleft, hsep _ _ hP⟩
  complete := by
    rintro eof ts as w left hend hs hsep ⟨hnext, hlast⟩
    cases hsep with
    | last ha =>
      obtain ⟨b, mid, hb, rfl, hmid⟩ := hp.complete hend hs ha hlast
      refine ⟨(b, []), mid, ?_, rfl, hmid⟩
      have htail : (after .comma p).repeated (.ended eof) mid = .ok ([], mid) :=
        repeatUpTo_after_stop hend hmid hnext (mid.length + 1)
      rw [Reader.commaSeparated, bind_of_ok hb]
      exact bind_of_ok htail
    | @more a as u v ha hsep =>
      rw [List.append_assoc, List.cons_append, ← List.cons_append] at hs
      obtain ⟨b, mid, hb, rfl, hmid⟩ := hp.complete hend hs ha hcomma
      have hlen : as.length ≤ mid.length + 1 := by
        have := hsep.length_le hne
        have := hmid.length_eq
        simp at this
        omega
      obtain ⟨bs, rest, hbs, rfl, hleft⟩ :=
        repeatUpTo_after_complete hp hcomma hend hnext hlast hsep hlen hmid
      have htail : (after .comma p).repeated (.ended eof) mid = .ok (bs, rest) := hbs
      refine ⟨(b, bs), rest, ?_, rfl, hleft⟩
      rw [Reader.commaSeparated, bind_of_ok hb]
      exact bind_of_ok htail

private theorem oneOrBracketed_sound {followAll : Symbol → Prop}
    (hp : Recognizes p view P follow)
    (hall : Recognizes (Reader.commaSeparated p) (fun r ↦ view r.1 :: r.2.map view)
      (Separated .comma P) followAll)
    (hend : Ends around) (hs : Spells ts u) {bs : List β}
    (h : Reader.oneOrBracketed p around ts = .ok (bs, rest)) :
    ∃ used left, u = used ++ left ∧ Spells rest left ∧ Listed P (bs.map view) used := by
  rw [Reader.oneOrBracketed, bind_eq_ok] at h
  obtain ⟨opened, ts₁, he, h⟩ := h
  rcases eat_shows hend hs he with ⟨rfl, u, rfl, hs₁⟩ | ⟨rfl, rfl, _⟩
  · rw [if_pos rfl, bind_eq_ok] at h
    obtain ⟨closed, ts₂, he', h⟩ := h
    rcases eat_shows hend hs₁ he' with ⟨rfl, u, rfl, hrest⟩ | ⟨rfl, rfl, _⟩
    · obtain ⟨rfl, rfl⟩ := pure_eq_ok.mp h
      exact ⟨_, u, rfl, hrest, .empty⟩
    · rw [if_neg Bool.false_ne_true, bind_eq_ok] at h
      obtain ⟨⟨first, others⟩, ts₃, hread, h⟩ := h
      rw [bind_eq_ok] at h
      obtain ⟨t, ts₄, hc, h⟩ := h
      obtain ⟨rfl, rfl⟩ := pure_eq_ok.mp h
      obtain ⟨used, left, rfl, hs₃, hsep⟩ := hall.sound hend hs₁ hread
      obtain ⟨left, rfl, hrest⟩ := expect_mark_shows hend hs₃ hc
      exact ⟨_, left, by simp, hrest, .bracketed hsep⟩
  · rw [if_neg Bool.false_ne_true, bind_eq_ok] at h
    obtain ⟨b, ts₂, hb, h⟩ := h
    obtain ⟨rfl, rfl⟩ := pure_eq_ok.mp h
    obtain ⟨used, left, rfl, hrest, hP⟩ := hp.sound hend hs hb
    exact ⟨used, left, rfl, hrest, .single hP⟩

/-- A single value or values in brackets are recognized as the values are, if no value begins with
a bracket. -/
theorem Recognizes.oneOrBracketed (hp : Recognizes p view P follow)
    (hcomma : follow (.mark .comma)) (hclose : follow (.mark .rightBracket))
    (hhead : ∀ a u, P a u → ∃ s v, u = s :: v ∧ s ≠ .mark .leftBracket ∧ s ≠ .mark .rightBracket) :
    Recognizes (Reader.oneOrBracketed p) (List.map view) (Listed P) follow := by
  have hne a u (ha : P a u) : u ≠ [] := by
    obtain ⟨s, v, rfl, _⟩ := hhead a u ha
    exact List.cons_ne_nil s v
  have hall := hp.commaSeparated hcomma hne
  refine ⟨fun hend hs h ↦ oneOrBracketed_sound hp hall hend hs h, ?_⟩
  intro eof ts as w left hend hs hlist hf
  cases hlist with
  | single ha =>
    obtain ⟨b, rest, hb, rfl, hrest⟩ := hp.complete hend hs ha hf
    obtain ⟨s, v, rfl, hopen, _⟩ := hhead _ _ ha
    refine ⟨[b], rest, ?_, rfl, hrest⟩
    rw [Reader.oneOrBracketed, bind_of_ok (eat_other hend hs hopen), if_neg Bool.false_ne_true,
      bind_of_ok hb]
    rfl
  | empty =>
    obtain ⟨ts₁, ho, hs₁⟩ := eat_mark (.ended eof) hs
    obtain ⟨rest, hc, hrest⟩ := eat_mark (.ended eof) hs₁
    refine ⟨[], rest, ?_, rfl, hrest⟩
    rw [Reader.oneOrBracketed, bind_of_ok ho, if_pos rfl, bind_of_ok hc]
    rfl
  | bracketed hsep =>
    rw [List.append_assoc, List.cons_append] at hs
    obtain ⟨ts₁, ho, hs₁⟩ := eat_mark (.ended eof) hs
    obtain ⟨⟨first, others⟩, ts₂, hread, rfl, hs₂⟩ :=
      hall.complete hend hs₁ hsep ⟨by simp, hclose⟩
    obtain ⟨t, rest, hc, hrest⟩ := expect_mark (.ended eof) hs₂
    obtain ⟨s, v, rfl, _, hinside⟩ := hsep.begins hhead
    refine ⟨first :: others, rest, ?_, rfl, hrest⟩
    rw [Reader.oneOrBracketed, bind_of_ok ho, if_pos rfl, bind_of_ok (eat_other hend hs₁ hinside),
      if_neg Bool.false_ne_true, bind_of_ok hread]
    exact bind_of_ok hc

end Lists

end Reader

end PolicySchema.Text
