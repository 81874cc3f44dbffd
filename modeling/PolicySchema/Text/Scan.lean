import PolicySchema.Hex
import PolicySchema.Identifier
import PolicySchema.Unicode.Blank
import PolicySchema.Text.Error

/-!
# Scanning

Scanning cuts a text into tokens and skips the blanks and comments between them. A cursor holds
the characters still to be read and the place where they begin. Scanning goes on where a failed
attempt stopped, and past the end it yields the end of input over and over.
-/

namespace PolicySchema.Text

/-- The rest of a text and the place where it begins. -/
structure Cursor where
  position : Position
  rest : List Char
  deriving DecidableEq, Repr

namespace Cursor

/-- The cursor at the start of a text. -/
def ofText (text : String) : Cursor := ⟨.start, text.toList⟩

end Cursor

/-- Where skipping stands: between tokens, in a comment to the end of the line, or in a block
comment that was opened at a place. -/
inductive Gap where
  | between
  | line
  | block (opened : Position)
  deriving DecidableEq, Repr

/-- Skips blanks and comments. Fails at the opening of a block comment that is never closed. -/
def skipGap : Gap → Position → List Char → Except Failure Unit × Cursor
  | .between, p, '/' :: '/' :: cs => skipGap .line ((p.advance '/').advance '/') cs
  | .between, p, '/' :: '*' :: cs => skipGap (.block p) ((p.advance '/').advance '*') cs
  | .between, p, c :: cs =>
    if Unicode.isBlank c then skipGap .between (p.advance c) cs else (.ok (), ⟨p, c :: cs⟩)
  | .between, p, [] => (.ok (), ⟨p, []⟩)
  | .line, p, c :: cs => skipGap (if c = '\n' then .between else .line) (p.advance c) cs
  | .line, p, [] => (.ok (), ⟨p, []⟩)
  | .block _, p, '*' :: '/' :: cs => skipGap .between ((p.advance '*').advance '/') cs
  | .block opened, p, c :: cs => skipGap (.block opened) (p.advance c) cs
  | .block opened, p, [] => (.error ⟨.unterminatedComment, ⟨opened, 2⟩⟩, ⟨p, []⟩)

/-- The characters of a word at its start, and the characters after it. -/
def splitWord (cs : List Char) : List Char × List Char := cs.span isWordContinue

/-- What an escape letter stands for, if it takes no digits. -/
def unescape? : Char → Option Char
  | 'n' => some '\n'
  | 'r' => some '\r'
  | 't' => some '\t'
  | '\\' => some '\\'
  | '\'' => some '\''
  | '"' => some '"'
  | '0' => some '\x00'
  | _ => none

/-- The text of a literal as written after its opening quote, and what it stands for. -/
structure LiteralText where
  written : List Char
  value : List Char
  deriving DecidableEq, Repr

/-- The literal with a stretch put before it that stands for a character. -/
def LiteralText.add (l : LiteralText) (written : List Char) (c : Char) : LiteralText :=
  ⟨written ++ l.written, c :: l.value⟩

/-- The outcome of scanning a literal with a stretch put before what was scanned. -/
def prepend (written : List Char) (c : Char) (r : Except Failure LiteralText × Cursor) :
    Except Failure LiteralText × Cursor :=
  (r.1.map (·.add written c), r.2)

/-- The outcome for an escape sequence at a place that stands for nothing. -/
def badEscape (p : Position) (written rest : List Char) :
    Except Failure LiteralText × Cursor :=
  let stop := p.after written
  (.error ⟨.invalidEscape (String.ofList written), .between p stop⟩, ⟨stop, rest⟩)

/-- Scans the rest of a literal that was opened at a place. A line feed or the end of the text
leaves it unterminated. -/
def scanLiteral (opened : Position) :
    Position → List Char → Except Failure LiteralText × Cursor
  | p, [] => (.error ⟨.unterminatedLiteral, .between opened p⟩, ⟨p, []⟩)
  | p, '"' :: cs => (.ok ⟨['"'], []⟩, ⟨p.advance '"', cs⟩)
  | p, ['\\'] =>
    let stop := p.advance '\\'
    (.error ⟨.unterminatedLiteral, .between opened stop⟩, ⟨stop, []⟩)
  | p, '\\' :: 'x' :: a :: b :: cs =>
    match Hex.value? a, Hex.value? b with
    | some m, some n =>
      prepend ['\\', 'x', a, b] (Char.ofNat (16 * m + n))
        (scanLiteral opened (p.after ['\\', 'x', a, b]) cs)
    | some _, none => badEscape p ['\\', 'x', a] (b :: cs)
    | none, _ => badEscape p ['\\', 'x'] (a :: b :: cs)
  | p, '\\' :: 'x' :: cs =>
    match cs with
    | [a] => if (Hex.value? a).isSome then badEscape p ['\\', 'x', a] []
      else badEscape p ['\\', 'x'] [a]
    | cs => badEscape p ['\\', 'x'] cs
  | p, '\\' :: c :: cs =>
    let stop := p.after ['\\', c]
    if c = '\n' then (.error ⟨.unterminatedLiteral, .between opened stop⟩, ⟨stop, cs⟩)
    else
      match unescape? c with
      | some value => prepend ['\\', c] value (scanLiteral opened stop cs)
      | none => badEscape p ['\\', c] cs
  | p, c :: cs =>
    if c = '\n' then
      (.error ⟨.unterminatedLiteral, .between opened (p.advance c)⟩, ⟨p.advance c, cs⟩)
    else prepend [c] c (scanLiteral opened (p.advance c) cs)

/-- The mark at the start of a text, and the characters after it. -/
def splitMark? : List Char → Option (Mark × List Char)
  | ':' :: ':' :: cs => some (.doubleColon, cs)
  | ':' :: cs => some (.colon, cs)
  | '{' :: cs => some (.leftBrace, cs)
  | '}' :: cs => some (.rightBrace, cs)
  | '[' :: cs => some (.leftBracket, cs)
  | ']' :: cs => some (.rightBracket, cs)
  | '<' :: cs => some (.leftAngle, cs)
  | '>' :: cs => some (.rightAngle, cs)
  | '(' :: cs => some (.leftParen, cs)
  | ')' :: cs => some (.rightParen, cs)
  | ',' :: cs => some (.comma, cs)
  | ';' :: cs => some (.semicolon, cs)
  | '?' :: cs => some (.question, cs)
  | '=' :: cs => some (.equals, cs)
  | '@' :: cs => some (.at, cs)
  | _ => none

/-- A token that stands for itself, and the cursor after it. -/
def plainToken (kind : TokenKind) (p : Position) (written rest : List Char) :
    Except Failure Token × Cursor :=
  let text := String.ofList written
  (.ok ⟨kind, text, text, p⟩, ⟨p.after written, rest⟩)

/-- Scans the token at a place where no blank and no comment begins. -/
def scanToken (p : Position) : List Char → Except Failure Token × Cursor
  | [] => plainToken .endOfInput p [] []
  | '"' :: cs =>
    let (outcome, cursor) := scanLiteral p (p.advance '"') cs
    (outcome.map fun l ↦
      ⟨.literal, String.ofList ('"' :: l.written), String.ofList l.value, p⟩, cursor)
  | c :: cs =>
    if isWordStart c then
      let (more, rest) := splitWord cs
      plainToken .word p (c :: more) rest
    else
      match splitMark? (c :: cs) with
      | some (m, rest) => plainToken (.mark m) p m.chars rest
      | none => (.error ⟨.unexpectedCharacter c, ⟨p, c.utf8Size⟩⟩, ⟨p.advance c, cs⟩)

namespace Cursor

/-- The next token, or why there is none, and the cursor after what was read. -/
def next (cursor : Cursor) : Except Failure Token × Cursor :=
  match skipGap .between cursor.position cursor.rest with
  | (.error e, stop) => (.error e, stop)
  | (.ok (), stop) => scanToken stop.position stop.rest

end Cursor

/-- The tokens of a text before its end or the first failure, and that end or failure. -/
structure Scanned where
  tokens : List Token
  ending : Except Failure Token

/-- Scans up to the end or the first failure. Every step but the last takes a character, so as
many steps as there are characters and one more reach it. -/
def scanFrom : Nat → Cursor → Scanned
  | 0, cursor => ⟨[], cursor.next.1⟩
  | steps + 1, cursor =>
    match cursor.next with
    | (.error e, _) => ⟨[], .error e⟩
    | (.ok t, after) =>
      if t.kind = .endOfInput then ⟨[], .ok t⟩
      else
        let more := scanFrom steps after
        ⟨t :: more.tokens, more.ending⟩

/-- The tokens of a text. -/
def scan (text : String) : Scanned :=
  let cursor := Cursor.ofText text
  scanFrom cursor.rest.length cursor

/-- The results of scanning in order, up to and with the end of input or the first failure. -/
def Scanned.results (s : Scanned) : List (Except Failure Token) :=
  s.tokens.map .ok ++ [s.ending]

/-- The results of scanning on after each failure, up to and with the end of input, and the
cursor after them. -/
def resumeFrom : Nat → Cursor → List (Except Failure Token) × Cursor
  | 0, cursor => ([], cursor)
  | steps + 1, cursor =>
    match cursor.next with
    | (.ok t, after) =>
      if t.kind = .endOfInput then ([.ok t], after)
      else
        let (more, last) := resumeFrom steps after
        (.ok t :: more, last)
    | (.error e, after) =>
      let (more, last) := resumeFrom steps after
      (.error e :: more, last)

/-- The results of scanning a text to its end, whatever fails on the way. -/
def resume (text : String) : List (Except Failure Token) × Cursor :=
  let cursor := Cursor.ofText text
  resumeFrom (cursor.rest.length + 1) cursor

end PolicySchema.Text
