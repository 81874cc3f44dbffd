import PolicySchema.Stack
import PolicySchema.Text.Scan

/-!
# Readers of tokens

A reader takes tokens from the front of a list and gives a value with the tokens that are left,
or fails. Past the last token it meets the ending of the scanned text: the end of input, over and
over, or the failure that scanning stopped at. It also fails where it finds the stack exhausted.
-/

namespace PolicySchema.Text

/-- What there is around the tokens of a text. -/
structure Surroundings where
  /-- What follows the last token. -/
  ending : Except Failure Token
  /-- Where the stack is exhausted. -/
  exhausted : StackMap

/-- Reads a value from tokens in their surroundings. -/
def Reader (α : Type) : Type :=
  Surroundings → List Token → Except Failure (α × List Token)

namespace Reader

variable {α β : Type}

/-- Reads nothing. -/
protected def pure (a : α) : Reader α := fun _ ts ↦ .ok (a, ts)

/-- Reads on with what was read. -/
protected def bind (p : Reader α) (f : α → Reader β) : Reader β := fun around ts ↦
  match p around ts with
  | .error e => .error e
  | .ok (a, rest) => f a around rest

/-- The second reader goes on with the tokens that the first leaves, unless the first fails. -/
instance : Monad Reader where
  pure := Reader.pure
  bind := Reader.bind

/-- Fails with a cause at a stretch. -/
def fail (cause : Cause) (span : Span) : Reader α := fun _ _ ↦ .error ⟨cause, span⟩

/-- Fails at a token that the grammar does not allow. -/
def unexpected (found : Token) (expected : Expected) : Reader α :=
  fail (.unexpected found expected) found.span

/-- Fails with a cause at a stretch if the stack is exhausted there. -/
def withinStack (cause : Cause) (span : Span) : Reader Unit := fun around ts ↦
  if around.exhausted span then .error ⟨cause, span⟩ else .ok ((), ts)

/-- The next token, which stays. -/
def peek : Reader Token := fun around ts ↦
  match ts with
  | t :: _ => .ok (t, ts)
  | [] => around.ending.map (·, [])

/-- The token after the next, which stays. -/
def peekSecond : Reader Token := fun around ts ↦
  match ts with
  | _ :: t :: _ => .ok (t, ts)
  | _ => around.ending.map (·, ts)

/-- Takes the next token. -/
def next : Reader Token := fun around ts ↦
  match ts with
  | t :: rest => .ok (t, rest)
  | [] => around.ending.map (·, [])

/-- Takes the next token if it is the given mark. -/
def eat (m : Mark) : Reader Bool := do
  let t ← peek
  if t.kind = .mark m then
    let _ ← next
    pure true
  else pure false

/-- Takes a token, which must be of the given kind. -/
def expect (kind : TokenKind) : Reader Token := do
  let t ← next
  if t.kind = kind then pure t else unexpected t (.kind kind)

/-- Takes a token, which must be the given word. -/
def expectWord (word : String) : Reader Token := do
  let t ← next
  if t.isWord word then pure t else unexpected t (.keyword word)

/-- Repeats a reader until it has no more to give, at most the given number of times. -/
def repeatUpTo (step : Reader (Option α)) : Nat → Reader (List α)
  | 0 => pure []
  | n + 1 => do
    match ← step with
    | none => pure []
    | some a =>
      let as ← repeatUpTo step n
      pure (a :: as)

/-- Gives a reader a bound on the number of steps: one more than there are tokens. -/
def withSteps (p : Nat → Reader α) : Reader α := fun around ts ↦ p (ts.length + 1) around ts

/-- Repeats a reader that takes a token for each value, until it has no more to give. -/
def repeated (step : Reader (Option α)) : Reader (List α) := withSteps (repeatUpTo step)

/-- One or more values with commas between them: the first and the others. -/
def commaSeparated (p : Reader α) : Reader (α × List α) := do
  let first ← p
  let others ← repeated do
    if ← eat .comma then
      let a ← p
      pure (some a)
    else pure none
  pure (first, others)

/-- A single value, or any number of values in brackets with commas between them. -/
def oneOrBracketed (p : Reader α) : Reader (List α) := do
  if ← eat .leftBracket then
    if ← eat .rightBracket then pure []
    else
      let (first, others) ← commaSeparated p
      let _ ← expect (.mark .rightBracket)
      pure (first :: others)
  else
    let a ← p
    pure [a]

end Reader

end PolicySchema.Text
