import PolicySchema.Source

/-!
# Tokens

The text form of a schema is a sequence of words, string literals and marks, closed by the end of
input. Keywords are words; which words act as keywords depends on where they stand.
-/

namespace PolicySchema.Text

/-- The marks. -/
inductive Mark where
  | doubleColon
  | leftBrace
  | rightBrace
  | leftBracket
  | rightBracket
  | leftAngle
  | rightAngle
  | leftParen
  | rightParen
  | comma
  | semicolon
  | colon
  | question
  | equals
  | at
  deriving DecidableEq, Repr

/-- The characters of a mark. -/
def Mark.chars : Mark → List Char
  | .doubleColon => [':', ':']
  | .leftBrace => ['{']
  | .rightBrace => ['}']
  | .leftBracket => ['[']
  | .rightBracket => [']']
  | .leftAngle => ['<']
  | .rightAngle => ['>']
  | .leftParen => ['(']
  | .rightParen => [')']
  | .comma => [',']
  | .semicolon => [';']
  | .colon => [':']
  | .question => ['?']
  | .equals => ['=']
  | .at => ['@']

/-- The text of a mark. -/
def Mark.text (m : Mark) : String := String.ofList m.chars

/-- The kinds of token. -/
inductive TokenKind where
  | word
  | literal
  | mark (m : Mark)
  | endOfInput
  deriving DecidableEq, Repr

/-- The words for a kind of token. -/
def TokenKind.text : TokenKind → String
  | .word => "identifier"
  | .literal => "string literal"
  | .mark m => "`" ++ m.text ++ "`"
  | .endOfInput => "end of input"

/-- A token with its place. -/
structure Token where
  kind : TokenKind
  /-- The text as written, with the quotes of a literal. -/
  text : String
  /-- The text that a literal stands for, and the text as written of any other token. -/
  value : String
  start : Position
  deriving DecidableEq, Repr

namespace Token

/-- The stretch of the source that the token takes. -/
def span (t : Token) : Span := ⟨t.start, t.text.utf8ByteSize⟩

/-- The token is the given word. -/
def isWord (t : Token) (word : String) : Bool := t.kind = .word && t.text == word

/-- The words for a token that stands where it may not. -/
def description (t : Token) : String :=
  match t.kind with
  | .word => "identifier `" ++ t.text ++ "`"
  | .literal => "string literal " ++ t.text
  | other => other.text

end Token

end PolicySchema.Text
