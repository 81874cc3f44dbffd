/-!
# Places in a source text

Offsets and lengths count UTF-8 bytes, columns count characters, and lines and columns start
at 1. A position is a measure of the characters before it (`Position.after`).
-/

namespace PolicySchema

/-- A place between two characters of a text. -/
structure Position where
  /-- The number of bytes before it. -/
  offset : Nat
  line : Nat
  column : Nat
  deriving DecidableEq, Repr

namespace Position

/-- The place before the first character. -/
def start : Position := ⟨0, 1, 1⟩

/-- The place after a character that stands at a place. Only a line feed ends a line. -/
def advance (p : Position) (c : Char) : Position :=
  if c = '\n' then ⟨p.offset + c.utf8Size, p.line + 1, 1⟩
  else ⟨p.offset + c.utf8Size, p.line, p.column + 1⟩

/-- The place after characters that stand at a place. -/
def after (p : Position) (cs : List Char) : Position := cs.foldl advance p

/-- Passing nothing stays in place. -/
theorem after_nil (p : Position) : p.after [] = p := rfl

/-- Passing a character and then more. -/
theorem after_cons (p : Position) (c : Char) (cs : List Char) :
    p.after (c :: cs) = (p.advance c).after cs := rfl

/-- Passing two stretches is passing their concatenation. -/
theorem after_append (p : Position) (cs ds : List Char) :
    p.after (cs ++ ds) = (p.after cs).after ds := List.foldl_append

end Position

/-- A stretch of a text: where it starts and how many bytes it has. -/
structure Span where
  start : Position
  length : Nat
  deriving DecidableEq, Repr

namespace Span

/-- The offset just after a span. -/
def stop (s : Span) : Nat := s.start.offset + s.length

/-- The span from a place to a later one. -/
def between (start stop : Position) : Span := ⟨start, stop.offset - start.offset⟩

/-- The span from the start of one span to the end of another. -/
def through (first last : Span) : Span := ⟨first.start, last.stop - first.start.offset⟩

end Span

/-- A text with the name of the file that it came from, which may be empty. -/
structure Source where
  file : String
  text : String
  deriving DecidableEq, Repr

/-- A stretch of a named source. -/
structure Location where
  source : Source
  span : Span
  deriving DecidableEq, Repr

/-- What is left after dropping exactly `n` bytes, if a character ends there. -/
def dropBytes : Nat → List Char → Option (List Char)
  | 0, cs => some cs
  | _ + 1, [] => none
  | n + 1, c :: cs =>
    if c.utf8Size ≤ n + 1 then dropBytes (n + 1 - c.utf8Size) cs else none

/-- The first `n` bytes as characters, if a character ends there. -/
def takeBytes : Nat → List Char → Option (List Char)
  | 0, _ => some []
  | _ + 1, [] => none
  | n + 1, c :: cs =>
    if c.utf8Size ≤ n + 1 then (takeBytes (n + 1 - c.utf8Size) cs).map (c :: ·) else none

namespace Location

/-- The place as messages give it: file, line and column, without the file if it has no name. -/
def text (l : Location) : String :=
  let place := toString l.span.start.line ++ ":" ++ toString l.span.start.column
  if l.source.file.isEmpty then place else l.source.file ++ ":" ++ place

/-- The text of the stretch, if it lies within the source on character boundaries. -/
def snippet? (l : Location) : Option String :=
  (dropBytes l.span.start.offset l.source.text.toList).bind fun rest ↦
    (takeBytes l.span.length rest).map String.ofList

end Location

end PolicySchema
