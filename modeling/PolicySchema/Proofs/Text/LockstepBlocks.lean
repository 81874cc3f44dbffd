import PolicySchema.Proofs.Text.EntityRecognition
import PolicySchema.Proofs.Text.LockstepGrammar

/-!
# Declarations and blocks in lockstep

Two corresponding texts consist of items that state the same at corresponding stretches, up to
failures of the same kind (`lockstep_itemsOf`).
-/

namespace PolicySchema.Text

/-- The stretch of the name that an item introduces. -/
def Item.span : Item → Span
  | .block _ _ span => span
  | .commonType d => d.span
  | .entityType d => d.span
  | .action d => d.span

namespace Likeness

open Grammar

variable {l : Likeness}

/-- The items state the same at corresponding stretches. -/
def SameItem (l : Likeness) (i i' : Item) : Prop :=
  i'.statement = i.statement ∧ l.span i.span i'.span

/-- The same opening stands at corresponding stretches. -/
inductive SameOpening (l : Likeness) : Opening → Opening → Prop where
  | done : SameOpening l .done .done
  | block {n notes span span'} : l.span span span' →
      SameOpening l (.block n notes span) (.block n notes span')
  | items {items items'} : List.Forall₂ l.SameItem items items' →
      SameOpening l (.items items) (.items items')

/-! ### Declarations -/

private theorem lockstep_enumEntity (ns : Option Name) (notes : Annotations) :
    l.Lockstep (List.Forall₂ l.SameItem) (enumEntity ns notes) (enumEntity ns notes) := by
  refine lockstep_identifier.bind_placed fun key span span' hspan ↦ ?_
  refine (Lockstep.expectWord _).bind fun _ _ _ ↦ (Lockstep.expect _).bind fun _ _ _ ↦ ?_
  refine (Lockstep.expect .literal).bind fun first first' hfirst ↦ ?_
  rw [l.value hfirst.1]
  refine (Lockstep.withSteps fun n ↦ lockstep_enumValuesUpTo n _).bind_eq fun values ↦ ?_
  exact (Lockstep.expect _).bind fun _ _ _ ↦ (Lockstep.expect _).bind fun _ _ _ ↦
    .pure (.cons ⟨rfl, hspan⟩ .nil)

private theorem forall₂_sameItem {κ : Type} {item : κ × Span → Item}
    {names names' : List (κ × Span)} (h : List.Forall₂ l.Placed names names')
    (hitem : ∀ key span span', l.span span span' →
      l.SameItem (item (key, span)) (item (key, span'))) :
    List.Forall₂ l.SameItem (names.map item) (names'.map item) := by
  rw [List.forall₂_map_left_iff, List.forall₂_map_right_iff]
  refine h.imp ?_
  rintro ⟨_, span⟩ ⟨key, span'⟩ ⟨rfl, hspan⟩
  exact hitem _ _ _ hspan

private theorem lockstep_standardEntities (ns : Option Name) (notes : Annotations) :
    l.Lockstep (List.Forall₂ l.SameItem) (standardEntities ns notes)
      (standardEntities ns notes) := by
  refine (Lockstep.commaSeparated lockstep_identifier).bind ?_
  rintro ⟨first, others⟩ ⟨first', others'⟩ ⟨hfirst, hothers⟩
  refine (lockstep_optionalIn lockstep_entityRefs).bind_eq fun memberOf ↦ ?_
  refine lockstep_optionalShape.bind_eq fun shape ↦ ?_
  refine lockstep_optionalTags.bind_eq fun tags ↦ ?_
  refine (Lockstep.expect _).bind fun _ _ _ ↦ .pure ?_
  exact forall₂_sameItem (.cons hfirst hothers) fun _ _ _ h ↦ ⟨rfl, h⟩

private theorem lockstep_opensEnum : l.Lockstep Eq opensEnum opensEnum := by
  refine Lockstep.peek.bind fun t t' ht ↦ ?_
  refine .ite (Lockstep.kind_iff ht) (fun _ ↦ ?_) fun _ ↦ .pure rfl
  refine Lockstep.peekSecond.bind fun second second' hsecond ↦ .pure ?_
  exact Bool.eq_iff_iff.mpr (Lockstep.isWord_iff hsecond).symm

private theorem lockstep_entity (ns : Option Name) (notes : Annotations) :
    l.Lockstep (List.Forall₂ l.SameItem) (entity ns notes) (entity ns notes) := by
  refine (Lockstep.expectWord _).bind fun _ _ _ ↦ lockstep_opensEnum.bind_eq fun b ↦ ?_
  exact .ite .rfl (fun _ ↦ lockstep_enumEntity ns notes) fun _ ↦ lockstep_standardEntities ns notes

private theorem lockstep_action (ns : Option Name) (notes : Annotations) :
    l.Lockstep (List.Forall₂ l.SameItem) (action ns notes) (action ns notes) := by
  refine (Lockstep.expectWord _).bind fun _ _ _ ↦
    (Lockstep.commaSeparated lockstep_actionName).bind ?_
  rintro ⟨first, others⟩ ⟨first', others'⟩ ⟨hfirst, hothers⟩
  have hrefs := lockstep_eq (l := l) (.oneOrBracketed lockstep_actionRef)
  refine (lockstep_optionalIn hrefs).bind_eq fun memberOf ↦ ?_
  refine lockstep_optionalAppliesTo.bind_eq fun applies ↦ ?_
  refine (Lockstep.expect _).bind fun _ _ _ ↦ .pure ?_
  exact forall₂_sameItem (.cons hfirst hothers) fun _ _ _ h ↦ ⟨rfl, h⟩

private theorem lockstep_commonType (ns : Option Name) (notes : Annotations) :
    l.Lockstep (List.Forall₂ l.SameItem) (commonType ns notes) (commonType ns notes) := by
  refine (Lockstep.expectWord _).bind fun _ _ _ ↦ ?_
  refine lockstep_identifier.bind_placed fun key span span' hspan ↦ ?_
  refine (Lockstep.expect _).bind fun _ _ _ ↦ (lockstep_typeUpTo _).bind_eq fun type ↦ ?_
  exact (Lockstep.expect _).bind fun _ _ _ ↦ .pure (.cons ⟨rfl, hspan⟩ .nil)

/-! ### Blocks -/

/-- A statement of a block opens alike in both inputs. -/
theorem lockstep_opening (ns : Option Name) (stop : TokenKind) :
    l.Lockstep l.SameOpening (opening ns stop) (opening ns stop) := by
  have hitems {p : Reader (List Item)} (hp : l.Lockstep (List.Forall₂ l.SameItem) p p) :
      l.Lockstep l.SameOpening (do let items ← p; pure (.items items))
        (do let items ← p; pure (.items items)) :=
    hp.bind fun _ _ h ↦ .pure (.items h)
  refine Lockstep.peek.bind fun t t' ht ↦ ?_
  refine .ite (Lockstep.kind_iff ht) (fun _ ↦ .pure .done) fun _ ↦ ?_
  refine lockstep_annotations.bind_eq fun notes ↦ ?_
  refine Lockstep.peek.bind fun t t' ht ↦ ?_
  refine .ite (Lockstep.isWord_iff ht) (fun _ ↦ ?_) fun _ ↦ ?_
  · refine (Lockstep.expectWord _).bind fun _ _ _ ↦ ?_
    refine lockstep_name.bind_placed fun n span span' hspan ↦ ?_
    exact (Lockstep.withinStack hspan).bind_eq fun _ ↦ .pure (.block hspan)
  refine .ite (Lockstep.isWord_iff ht) (fun _ ↦ hitems (lockstep_entity ns notes)) fun _ ↦ ?_
  refine .ite (Lockstep.isWord_iff ht) (fun _ ↦ hitems (lockstep_action ns notes)) fun _ ↦ ?_
  refine .ite (Lockstep.isWord_iff ht) (fun _ ↦ hitems (lockstep_commonType ns notes)) fun _ ↦ ?_
  exact Lockstep.next.bind fun _ _ ht ↦ .unexpected ht

/-- The same items were read at corresponding stretches, and then both texts failed in the same way
or equally many tokens were taken of both. -/
structure SameProgress (l : Likeness) (ts ts' : List Token) (p p' : Progress) : Prop where
  items : List.Forall₂ l.SameItem p.items p'.items
  outcome : Except.Rel l.Failing (fun rest rest' ↦ ∃ k, rest = ts.drop k ∧ rest' = ts'.drop k)
    p.outcome p'.outcome

namespace SameProgress

variable {ts ts' : List Token} {p p' : Progress}

/-- The same items before both keep the progress the same. -/
theorem after (h : l.SameProgress ts ts' p p') {items items' : List Item}
    (hitems : List.Forall₂ l.SameItem items items') :
    l.SameProgress ts ts' (p.after items) (p'.after items') :=
  ⟨List.rel_append hitems h.items, h.outcome⟩

/-- Tokens that are left after more were taken are left of all. -/
theorem of_drop {k : Nat} (h : l.SameProgress (ts.drop k) (ts'.drop k) p p') :
    l.SameProgress ts ts' p p' := by
  refine ⟨h.items, ?_⟩
  obtain ⟨-, houtcome⟩ := h
  generalize p.outcome = r, p'.outcome = r' at houtcome
  cases houtcome with
  | error hf => exact .error hf
  | ok hrest =>
    obtain ⟨j, rfl, rfl⟩ := hrest
    exact .ok ⟨k + j, List.drop_drop, List.drop_drop⟩

/-- The same progress goes on to the same progress. -/
theorem andThen (h : l.SameProgress ts ts' p p') {f f' : List Token → Progress}
    (hf : ∀ k, l.SameProgress (ts.drop k) (ts'.drop k) (f (ts.drop k)) (f' (ts'.drop k))) :
    l.SameProgress ts ts' (p.andThen f) (p'.andThen f') := by
  obtain ⟨items, outcome⟩ := p
  obtain ⟨items', outcome'⟩ := p'
  obtain ⟨hitems, houtcome⟩ := h
  cases houtcome with
  | error h => exact ⟨hitems, .error h⟩
  | ok hrest =>
    obtain ⟨k, rfl, rfl⟩ := hrest
    exact (hf k).of_drop.after hitems

end SameProgress

section

variable {around around' : Surroundings} {ts ts' : List Token}

private theorem sameProgress_of_outcomes {α : Type} {V : α → α → Prop}
    {r r' : Except Failure (α × List Token)} (h : l.Outcomes V ts ts' r r') :
    l.SameProgress ts ts' ⟨[], r.map Prod.snd⟩ ⟨[], r'.map Prod.snd⟩ := by
  refine ⟨.nil, ?_⟩
  cases h with
  | error h => exact .error h
  | ok h => exact .ok h.2

private theorem lockstep_skip (hend : l.Alongside around around')
    (hts : List.Forall₂ l.token ts ts') (kind : TokenKind) :
    l.SameProgress ts ts' (skip around kind ts) (skip around' kind ts') :=
  sameProgress_of_outcomes (Lockstep.expect kind hend hts)

/-- Sequences of declarations are read in lockstep, however many steps are allowed. -/
theorem lockstep_declarations (hend : l.Alongside around around') (n : Nat) :
    ∀ (ns : Option Name) (stop : TokenKind) {ts ts' : List Token}, List.Forall₂ l.token ts ts' →
      l.SameProgress ts ts' (declarations around n ns stop ts)
        (declarations around' n ns stop ts') := by
  -- On the steps. After each part of a block, what is left of both texts corresponds.
  induction n with
  | zero =>
    intro ns stop ts ts' hts
    exact sameProgress_of_outcomes (V := fun _ _ ↦ True)
      ((Lockstep.next.bind fun _ _ ht ↦ .unexpected ht) hend hts)
  | succ n ih =>
    intro ns stop ts ts' hts
    have hopening := lockstep_opening (l := l) ns stop hend hts
    rw [declarations, declarations]
    generalize opening ns stop around ts = r, opening ns stop around' ts' = r' at hopening
    cases hopening with
    | error h => exact ⟨.nil, .error h⟩
    | @ok r r' h =>
      obtain ⟨o, rest⟩ := r
      obtain ⟨o', rest'⟩ := r'
      obtain ⟨hsame, k, rfl, rfl⟩ := h
      have hrest := List.forall₂_drop k hts
      cases hsame with
      | done => exact ⟨.nil, .ok ⟨k, rfl, rfl⟩⟩
      | items hitems => exact (ih ns stop hrest).of_drop.after hitems
      | block hspan =>
        refine SameProgress.after (.of_drop (k := k) ?_) (.cons ⟨rfl, hspan⟩ .nil)
        refine (lockstep_skip hend hrest _).andThen fun k₁ ↦ ?_
        have hrest₁ := List.forall₂_drop k₁ hrest
        refine (ih _ _ hrest₁).andThen fun k₂ ↦ ?_
        have hrest₂ := List.forall₂_drop k₂ hrest₁
        exact (lockstep_skip hend hrest₂ _).andThen fun k₃ ↦ ih _ _ (List.forall₂_drop k₃ hrest₂)

end

/-- Corresponding texts have the same items at corresponding stretches. -/
theorem lockstep_itemsOf {s s' : Scanned} {exhausted exhausted' : StackMap}
    (hend : l.Alongside ⟨s.ending, exhausted⟩ ⟨s'.ending, exhausted'⟩)
    (hts : List.Forall₂ l.token s.tokens s'.tokens) :
    l.SameProgress s.tokens s'.tokens (itemsOf exhausted s) (itemsOf exhausted' s') := by
  rw [itemsOf, itemsOf, ← hts.length_eq]
  exact lockstep_declarations hend _ none .endOfInput hts

end Likeness

end PolicySchema.Text
