import PolicySchema.Text.Grammar.Declaration

/-!
# Namespace blocks in the text form

A text is a sequence of declarations and namespace blocks, which hold such sequences in turn. It is
read as its items in order. The items before a failure are kept, since an item that repeats an
earlier one counts before the failure.
-/

namespace PolicySchema.Text

namespace Grammar

open Reader

/-- What stands at the start of a sequence of declarations. -/
inductive Opening where
  /-- The token that ends the sequence, which stays. -/
  | done
  /-- The header of a namespace block, with its full name. -/
  | block (name : Name) (annotations : Annotations) (span : Span)
  | items (items : List Item)

/-- The header of a namespace block inside a namespace. Blocks inside of others may exhaust the
stack. -/
def blockHeader (ns : Option Name) (notes : Annotations) : Reader Opening := do
  let _ ← expectWord "namespace"
  let (n, span) ← name
  withinStack .namespacesTooDeep span
  pure (.block ((ns.map (· ++ n)).getD n) notes span)

/-- The start of a sequence of declarations in a namespace that ends at a token of a kind. -/
def opening (ns : Option Name) (stop : TokenKind) : Reader Opening := do
  let t ← peek
  if t.kind = stop then pure .done
  else
    let notes ← annotations
    let t ← peek
    if t.isWord "namespace" then blockHeader ns notes
    else if t.isWord "entity" then
      let items ← entity ns notes
      pure (.items items)
    else if t.isWord "action" then
      let items ← action ns notes
      pure (.items items)
    else if t.isWord "type" then
      let items ← commonType ns notes
      pure (.items items)
    else
      let t ← next
      unexpected t .declaration

/-- Items that were read, and the tokens after them or why there are no more items. -/
structure Progress where
  items : List Item
  outcome : Except Failure (List Token)

/-- Items put before what was read. -/
def Progress.after (items : List Item) (p : Progress) : Progress := ⟨items ++ p.items, p.outcome⟩

/-- Reads on after what was read, if that did not fail. -/
def Progress.andThen (p : Progress) (f : List Token → Progress) : Progress :=
  match p.outcome with
  | .error _ => p
  | .ok rest => (f rest).after p.items

/-- Reads one token of a kind and no item. -/
def skip (around : Surroundings) (kind : TokenKind) (ts : List Token) : Progress :=
  ⟨[], (expect kind around ts).map Prod.snd⟩

/-- A sequence of declarations in a namespace up to a token of a kind, in at most the given number
of steps. The items read before a failure are kept. -/
def declarations (around : Surroundings) :
    Nat → Option Name → TokenKind → List Token → Progress
  | 0, _, _, ts => ⟨[], ((next >>= fun t ↦ unexpected t .declaration : Reader Unit) around ts).map
      Prod.snd⟩
  | n + 1, ns, stop, ts =>
    match opening ns stop around ts with
    | .error f => ⟨[], .error f⟩
    | .ok (.done, rest) => ⟨[], .ok rest⟩
    | .ok (.items items, rest) => (declarations around n ns stop rest).after items
    | .ok (.block name notes span, rest) =>
      ((skip around (.mark .leftBrace) rest).andThen fun rest ↦
        (declarations around n (some name) (.mark .rightBrace) rest).andThen fun rest ↦
          (skip around (.mark .rightBrace) rest).andThen fun rest ↦
            declarations around n ns stop rest).after [.block name notes span]

end Grammar

/-- The items of a scanned text, and why there are no more if it does not follow the grammar or the
stack is exhausted. -/
def itemsOf (exhausted : StackMap) (s : Scanned) : Grammar.Progress :=
  Grammar.declarations ⟨s.ending, exhausted⟩ (s.tokens.length + 1) none .endOfInput s.tokens

end PolicySchema.Text
