import Mathlib.Data.List.Forall2
import PolicySchema.Proofs.Except
import PolicySchema.Proofs.Related
import PolicySchema.Proofs.Text.Recognition

/-!
# Reading two texts in lockstep

Two texts whose tokens correspond one by one are read in the same way: the readers take equally many
tokens of both and give the same values at corresponding stretches, or they fail on both for the
same kind of reason. The kinds and the values of tokens decide, and the written form of words. How
literals are written and where tokens stand decides nothing.

A text may also be put beside itself, to carry a property of its stretches from the tokens to all
that is read of them.
-/

namespace PolicySchema.Text

/-- How tokens and stretches of one text correspond to those of another. -/
structure Likeness where
  token : Token → Token → Prop
  span : Span → Span → Prop
  kind : ∀ {t t'}, token t t' → t'.kind = t.kind
  value : ∀ {t t'}, token t t' → t'.value = t.value
  text : ∀ {t t'}, token t t' → t.kind = .word → t'.text = t.text
  place : ∀ {t t'}, token t t' → span t.span t'.span
  through : ∀ {a a' b b'}, span a a' → span b b' → span (a.through b) (a'.through b')

namespace Likeness

section

variable (l : Likeness)

/-- The failures are of one kind, at corresponding stretches. -/
def Failing (f f' : Failure) : Prop := f'.cause.fault = f.cause.fault ∧ l.span f.span f'.span

/-- The endings of two texts correspond. -/
abbrev Endings : Except Failure Token → Except Failure Token → Prop := Except.Rel l.Failing l.token

/-- The endings of two texts correspond, and the stack is exhausted at corresponding stretches. -/
structure Alongside (around around' : Surroundings) : Prop where
  ending : l.Endings around.ending around'.ending
  exhausted : ∀ {span span'}, l.span span span' →
    around'.exhausted span' = around.exhausted span

/-- The same value was read at corresponding stretches. -/
def Placed {α : Type} (a a' : α × Span) : Prop := a'.1 = a.1 ∧ l.span a.2 a'.2

/-- The outcomes are related, and after a success equally many tokens were taken of both. -/
abbrev Outcomes {α : Type} (V : α → α → Prop) (ts ts' : List Token) :
    Except Failure (α × List Token) → Except Failure (α × List Token) → Prop :=
  Except.Rel l.Failing fun r r' ↦ V r.1 r'.1 ∧ ∃ k, r.2 = ts.drop k ∧ r'.2 = ts'.drop k

/-- The readers go along two texts in lockstep and give related values. -/
def Lockstep {α : Type} (V : α → α → Prop) (p p' : Reader α) : Prop :=
  ∀ ⦃around around' ts ts'⦄, l.Alongside around around' → List.Forall₂ l.token ts ts' →
    l.Outcomes V ts ts' (p around ts) (p' around' ts')

end

namespace Lockstep

variable {l : Likeness} {α β : Type} {V : α → α → Prop} {W : β → β → Prop}
  {p p' q q' : Reader α} {f f' : α → Reader β} {around around' : Surroundings}
  {ts ts' : List Token}

/-! ### Combinators -/

/-- What is read first may depend on the tokens that are left of both texts. -/
theorem bind_at (hend : l.Alongside around around') (hts : List.Forall₂ l.token ts ts')
    (h : l.Outcomes V ts ts' (p around ts) (p' around' ts'))
    (hf : ∀ a a', V a a' → l.Lockstep W (f a) (f' a')) :
    l.Outcomes W ts ts' ((p >>= f) around ts) ((p' >>= f') around' ts') := by
  change l.Outcomes W ts ts' (Reader.bind p f around ts) (Reader.bind p' f' around' ts')
  unfold Reader.bind
  generalize p around ts = r, p' around' ts' = r' at h
  cases h with
  | error h => exact .error h
  | @ok r r' h =>
    obtain ⟨a, rest⟩ := r
    obtain ⟨a', rest'⟩ := r'
    obtain ⟨hV, k, rfl, rfl⟩ := h
    -- As many tokens were taken of both, so what is left corresponds too.
    have hrest := hf a a' hV hend (List.forall₂_drop k hts)
    dsimp only
    generalize f a around (ts.drop k) = r, f' a' around' (ts'.drop k) = r' at hrest
    cases hrest with
    | error h => exact .error h
    | ok h =>
      obtain ⟨hW, j, hj, hj'⟩ := h
      rw [List.drop_drop] at hj hj'
      exact .ok ⟨hW, _, hj, hj'⟩

/-- Readers in lockstep go on in lockstep. -/
theorem bind (h : l.Lockstep V p p') (hf : ∀ a a', V a a' → l.Lockstep W (f a) (f' a')) :
    l.Lockstep W (p >>= f) (p' >>= f') := fun _ _ _ _ hend hts ↦
  bind_at hend hts (h hend hts) hf

/-- Readers that give the same go on in the same way. -/
theorem bind_eq (h : l.Lockstep Eq p p') (hf : ∀ a, l.Lockstep W (f a) (f' a)) :
    l.Lockstep W (p >>= f) (p' >>= f') :=
  h.bind fun a _ ha ↦ ha ▸ hf a

/-- Readers that give the same at corresponding stretches go on in the same way. -/
theorem bind_placed {p p' : Reader (α × Span)} {f f' : α × Span → Reader β}
    (h : l.Lockstep l.Placed p p')
    (hf : ∀ a span span', l.span span span' → l.Lockstep W (f (a, span)) (f' (a, span'))) :
    l.Lockstep W (p >>= f) (p' >>= f') := by
  refine h.bind ?_
  rintro ⟨a, span⟩ ⟨_, span'⟩ ⟨rfl, hspan⟩
  exact hf _ span span' hspan

/-- Readers that read nothing and return related values are in lockstep. -/
theorem pure {a a' : α} (h : V a a') : l.Lockstep V (pure a) (pure a') := fun _ _ _ _ _ _ ↦
  .ok ⟨h, 0, rfl, rfl⟩

/-- Readers that fail alike, in related places, are in lockstep. -/
theorem fail {cause cause' : Cause} {span span' : Span} (hcause : cause'.fault = cause.fault)
    (hspan : l.span span span') :
    l.Lockstep V (Reader.fail cause span) (Reader.fail cause' span') := fun _ _ _ _ _ _ ↦
  .error ⟨hcause, hspan⟩

/-- Readers that refuse related tokens are in lockstep. -/
theorem unexpected {t t' : Token} {expected : Expected} (h : l.token t t') :
    l.Lockstep V (Reader.unexpected t expected) (Reader.unexpected t' expected) :=
  fail rfl (l.place h)

/-- A choice made by equivalent conditions is made in lockstep. -/
theorem ite {c c' : Prop} [Decidable c] [Decidable c'] (hc : c' ↔ c)
    (hp : c → l.Lockstep V p p') (hq : ¬ c → l.Lockstep V q q') :
    l.Lockstep V (if c then p else q) (if c' then p' else q') := by
  by_cases h : c
  · rw [if_pos h, if_pos (hc.mpr h)]
    exact hp h
  · rw [if_neg h, if_neg (hc.not.mpr h)]
    exact hq h

/-- A check of the stack finds the same at corresponding stretches. -/
theorem withinStack {cause : Cause} {span span' : Span} (h : l.span span span') :
    l.Lockstep Eq (Reader.withinStack cause span) (Reader.withinStack cause span') := by
  intro around around' ts ts' hend hts
  unfold Reader.withinStack
  rw [hend.exhausted h]
  split
  · exact .error ⟨rfl, h⟩
  · exact .ok ⟨rfl, 0, rfl, rfl⟩

/-- Readers in lockstep for every number of steps are in lockstep for as many as there are tokens.
-/
theorem withSteps {p p' : Nat → Reader α} (h : ∀ n, l.Lockstep V (p n) (p' n)) :
    l.Lockstep V (Reader.withSteps p) (Reader.withSteps p') := by
  intro around around' ts ts' hend hts
  rw [Reader.withSteps, Reader.withSteps, ← hts.length_eq]
  exact h _ hend hts

/-! ### Tokens -/

/-- The front tokens are related. -/
theorem peek : l.Lockstep l.token Reader.peek Reader.peek := by
  rintro ⟨ending, _⟩ ⟨ending', _⟩ ts ts' ⟨hend, -⟩ hts
  cases hts with
  | nil =>
    cases hend with
    | error h => exact .error h
    | ok h => exact .ok ⟨h, 0, rfl, rfl⟩
  | cons ht _ => exact .ok ⟨ht, 0, rfl, rfl⟩

/-- The tokens behind the front tokens are related. -/
theorem peekSecond : l.Lockstep l.token Reader.peekSecond Reader.peekSecond := by
  rintro ⟨ending, _⟩ ⟨ending', _⟩ ts ts' ⟨hend, -⟩ hts
  rcases hts with _ | ⟨_, _ | ⟨ht, _⟩⟩
  case cons.cons => exact .ok ⟨ht, 0, rfl, rfl⟩
  all_goals
    cases hend with
    | error h => exact .error h
    | ok h => exact .ok ⟨h, 0, rfl, rfl⟩

/-- The front tokens are taken in lockstep. -/
theorem next : l.Lockstep l.token Reader.next Reader.next := by
  rintro ⟨ending, _⟩ ⟨ending', _⟩ ts ts' ⟨hend, -⟩ hts
  cases hts with
  | nil =>
    cases hend with
    | error h => exact .error h
    | ok h => exact .ok ⟨h, 0, rfl, rfl⟩
  | cons ht _ => exact .ok ⟨ht, 1, rfl, rfl⟩

/-- Related tokens are of the same kinds. -/
theorem kind_iff {t t' : Token} (h : l.token t t') {kind : TokenKind} :
    t'.kind = kind ↔ t.kind = kind := by
  rw [l.kind h]

/-- The text of a token matters only if it is a word. -/
theorem isWord_iff {t t' : Token} (h : l.token t t') {word : String} :
    t'.isWord word = true ↔ t.isWord word = true := by
  by_cases hkind : t.kind = .word
  · simp only [Token.isWord, l.kind h, l.text h hkind]
  · simp only [Token.isWord, l.kind h, hkind, decide_false, Bool.false_and]

/-- A mark is taken in both inputs or in neither. -/
theorem eat (m : Mark) : l.Lockstep Eq (Reader.eat m) (Reader.eat m) :=
  peek.bind fun _ _ ht ↦ ite (kind_iff ht) (fun _ ↦ next.bind fun _ _ _ ↦ pure rfl) fun _ ↦ pure rfl

/-- The taken tokens are of the kind. -/
theorem expect (kind : TokenKind) : l.Lockstep (fun t t' ↦ l.token t t' ∧ t.kind = kind)
    (Reader.expect kind) (Reader.expect kind) :=
  next.bind fun _ _ ht ↦ ite (kind_iff ht) (fun hkind ↦ pure ⟨ht, hkind⟩) fun _ ↦ unexpected ht

/-- A word is found in both inputs or missed in both. -/
theorem expectWord (word : String) :
    l.Lockstep l.token (Reader.expectWord word) (Reader.expectWord word) :=
  next.bind fun _ _ ht ↦ ite (isWord_iff ht) (fun _ ↦ pure ht) fun _ ↦ unexpected ht

/-! ### Repetition -/

private theorem repeatUpTo {step step' : Reader (Option α)}
    (h : l.Lockstep (Option.Rel V) step step') (n : Nat) :
    l.Lockstep (List.Forall₂ V) (Reader.repeatUpTo step n) (Reader.repeatUpTo step' n) := by
  induction n with
  | zero => exact pure .nil
  | succ n ih =>
    refine h.bind fun a a' ha ↦ ?_
    cases ha with
    | none => exact pure .nil
    | some ha => exact ih.bind fun _ _ has ↦ pure (.cons ha has)

/-- Repetitions of steps in lockstep are in lockstep. -/
theorem repeated {step step' : Reader (Option α)} (h : l.Lockstep (Option.Rel V) step step') :
    l.Lockstep (List.Forall₂ V) (Reader.repeated step) (Reader.repeated step') :=
  withSteps fun n ↦ repeatUpTo h n

/-- Values after a mark, as long as there are any. -/
theorem afterMark (h : l.Lockstep V p p') (m : Mark) :
    l.Lockstep (Option.Rel V)
      (do if ← Reader.eat m then let a ← p; Pure.pure (some a) else Pure.pure none)
      (do if ← Reader.eat m then let a ← p'; Pure.pure (some a) else Pure.pure none) := by
  refine (eat m).bind_eq fun b ↦ ?_
  exact ite .rfl (fun _ ↦ h.bind fun _ _ ha ↦ pure (.some ha)) fun _ ↦ pure .none

/-- Lists separated by commas are read in lockstep when their elements are. -/
theorem commaSeparated (h : l.Lockstep V p p') :
    l.Lockstep (fun a a' ↦ V a.1 a'.1 ∧ List.Forall₂ V a.2 a'.2)
      (Reader.commaSeparated p) (Reader.commaSeparated p') :=
  h.bind fun _ _ hfirst ↦ (repeated (afterMark h .comma)).bind fun _ _ hothers ↦
    pure ⟨hfirst, hothers⟩

/-- One element, or a list of them in brackets, is read in lockstep when the elements are. -/
theorem oneOrBracketed (h : l.Lockstep V p p') :
    l.Lockstep (List.Forall₂ V) (Reader.oneOrBracketed p) (Reader.oneOrBracketed p') := by
  refine (eat .leftBracket).bind_eq fun b ↦ ?_
  refine ite .rfl (fun _ ↦ ?_) fun _ ↦ h.bind fun _ _ ha ↦ pure (.cons ha .nil)
  refine (eat .rightBracket).bind_eq fun b ↦ ?_
  refine ite .rfl (fun _ ↦ pure .nil) fun _ ↦ ?_
  refine (commaSeparated h).bind fun _ _ hall ↦ ?_
  exact (expect _).bind fun _ _ _ ↦ pure (.cons hall.1 hall.2)

end Lockstep

end Likeness

end PolicySchema.Text
