import PolicySchema.Text.Scan

/-!
# Scanning call by call

A cursor can be asked for the next token any number of times, whatever the calls before gave. An
iteration asks until the end of input or the first failure, and gives nothing after it.
-/

namespace PolicySchema.Text

namespace Cursor

/-- The cursor after a number of calls for the next token. -/
def afterCalls : Nat → Cursor → Cursor
  | 0, cursor => cursor
  | n + 1, cursor => afterCalls n cursor.next.2

/-- What the call for the next token gives that comes after a number of others. -/
def call (cursor : Cursor) (n : Nat) : Except Failure Token := (cursor.afterCalls n).next.1

end Cursor

/-- The outcome of a call is the end of input. -/
def isEnd : Except Failure Token → Bool
  | .ok t => t.kind = .endOfInput
  | .error _ => false

/-- The outcome of a call is the end of input or a failure. -/
def isFinal : Except Failure Token → Bool
  | .ok t => t.kind = .endOfInput
  | .error _ => true

/-- A cursor that is used as an iterator. -/
structure Iteration where
  cursor : Cursor
  /-- The end of input or a failure was given. -/
  done : Bool

namespace Iteration

/-- The iteration over the tokens of a text. -/
def ofText (text : String) : Iteration := ⟨.ofText text, false⟩

/-- The next outcome, unless the iteration is done. -/
def next (i : Iteration) : Option (Except Failure Token) × Iteration :=
  if i.done then (none, i)
  else
    let (outcome, after) := i.cursor.next
    (some outcome, ⟨after, isFinal outcome⟩)

/-- What the call for the next outcome gives that comes after a number of others. -/
def call : Iteration → Nat → Option (Except Failure Token)
  | i, 0 => i.next.1
  | i, n + 1 => i.next.2.call n

end Iteration

end PolicySchema.Text
