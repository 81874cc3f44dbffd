import PolicySchema.Hex
import PolicySchema.Json

/-!
# Reading JSON

The strict grammar of RFC 8259: no byte order mark, nothing after the value, no raw control
character and no half of a surrogate pair in a string. Arrays and objects may enclose one another
up to a limit, which is what the recursion of the reader runs on.
-/

namespace PolicySchema.Json

/-- Reads a value from the front of a text and gives what is left. -/
abbrev Read (α : Type) := List Char → Option (α × List Char)

/-- The most arrays and objects that may enclose one another. -/
def maxDepth : Nat := 127

/-- The character may stand between tokens. -/
def isSpace (c : Char) : Bool := c == ' ' || c == '\t' || c == '\n' || c == '\r'

/-- The text from its first character that is no space. -/
def skipSpace (cs : List Char) : List Char := cs.dropWhile isSpace

/-- The value of four hexadecimal digits. -/
def hexUnit? (a b c d : Char) : Option Nat := do
  let a ← Hex.value? a
  let b ← Hex.value? b
  let c ← Hex.value? c
  let d ← Hex.value? d
  pure (((a * 16 + b) * 16 + c) * 16 + d)

/-- The unit is the first half of a surrogate pair. -/
def isHighHalf (unit : Nat) : Bool := 0xD800 ≤ unit && unit ≤ 0xDBFF

/-- The unit is the second half of a surrogate pair. -/
def isLowHalf (unit : Nat) : Bool := 0xDC00 ≤ unit && unit ≤ 0xDFFF

/-- What an escape letter stands for, if it takes no digits. -/
def shortEscape? : Char → Option Char
  | '"' => some '"'
  | '\\' => some '\\'
  | '/' => some '/'
  | 'b' => some '\x08'
  | 'f' => some '\x0c'
  | 'n' => some '\n'
  | 'r' => some '\r'
  | 't' => some '\t'
  | _ => none

/-- A character put before what a reader of characters gave. -/
def addChar (c : Char) : Option (List Char × List Char) → Option (List Char × List Char)
  | some (cs, rest) => some (c :: cs, rest)
  | none => none

/-- Reads the rest of a string after its opening quote, or after the first half of a surrogate
pair, which only its second half may follow. -/
def stringRest : Option Nat → Read (List Char)
  | half, '\\' :: 'u' :: a :: b :: c :: d :: cs =>
    match hexUnit? a b c d, half with
    | none, _ => none
    | some unit, some high =>
      if isLowHalf unit then
        addChar (Char.ofNat (0x10000 + (high - 0xD800) * 0x400 + (unit - 0xDC00)))
          (stringRest none cs)
      else none
    | some unit, none =>
      if isHighHalf unit then stringRest (some unit) cs
      else if isLowHalf unit then none
      else addChar (Char.ofNat unit) (stringRest none cs)
  | none, '\\' :: c :: cs =>
    match shortEscape? c with
    | some value => addChar value (stringRest none cs)
    | none => none
  | none, '"' :: cs => some ([], cs)
  | none, c :: cs => if c.toNat < 0x20 then none else addChar c (stringRest none cs)
  | _, _ => none

/-- The digits at the front of a text. -/
def digits (cs : List Char) : List Nat × List Char :=
  let (ds, rest) := cs.span Char.isDigit
  (ds.map fun d ↦ d.toNat - '0'.toNat, rest)

/-- The number that digits write. -/
def digitsValue (ds : List Nat) : Nat := ds.foldl (fun n d ↦ n * 10 + d) 0

/-- Reads digits, of which there must be one. -/
def someDigits : Read (List Nat) := fun cs ↦
  match digits cs with
  | ([], _) => none
  | (ds, rest) => some (ds, rest)

/-- Reads digits that do not begin with a needless zero. -/
def wholeDigits : Read (List Nat)
  | '0' :: cs => some ([0], cs)
  | cs => someDigits cs

/-- Reads the digits after a point, if there is one. -/
def fractionDigits : Read (List Nat)
  | '.' :: cs => someDigits cs
  | cs => some ([], cs)

/-- Reads digits after an optional sign. -/
def signedDigits : Read Int
  | '-' :: cs => (someDigits cs).map fun (ds, rest) ↦ (-(digitsValue ds : Int), rest)
  | '+' :: cs => (someDigits cs).map fun (ds, rest) ↦ ((digitsValue ds : Int), rest)
  | cs => (someDigits cs).map fun (ds, rest) ↦ ((digitsValue ds : Int), rest)

/-- Reads an exponent, which is zero if none is written. -/
def exponent : Read Int
  | 'e' :: cs => signedDigits cs
  | 'E' :: cs => signedDigits cs
  | cs => some (0, cs)

/-- Reads a number after its sign. -/
def unsignedNumber (negative : Bool) : Read JsonNumber := fun cs ↦ do
  let (whole, cs) ← wholeDigits cs
  let (fraction, cs) ← fractionDigits cs
  let (exponent, cs) ← exponent cs
  pure (⟨negative, whole, fraction, exponent⟩, cs)

/-- Reads a number. -/
def numberLiteral : Read JsonNumber
  | '-' :: cs => unsignedNumber true cs
  | cs => unsignedNumber false cs

/-- Reads the items of an array after its opening bracket in at most the given number of steps. The
array has at least one item. -/
def itemsUpTo (value : Read Json) : Nat → Read (List Json)
  | 0, _ => none
  | n + 1, cs => do
    let (item, cs) ← value cs
    match skipSpace cs with
    | ',' :: cs => do
      let (items, cs) ← itemsUpTo value n cs
      pure (item :: items, cs)
    | ']' :: cs => pure ([item], cs)
    | _ => none

/-- Reads the members of an object after its opening brace in at most the given number of steps.
The object has at least one member. -/
def membersUpTo (value : Read Json) : Nat → Read (List (String × Json))
  | 0, _ => none
  | n + 1, cs => do
    match skipSpace cs with
    | '"' :: cs => do
      let (key, cs) ← stringRest none cs
      match skipSpace cs with
      | ':' :: cs => do
        let (item, cs) ← value cs
        match skipSpace cs with
        | ',' :: cs => do
          let (members, cs) ← membersUpTo value n cs
          pure ((String.ofList key, item) :: members, cs)
        | '}' :: cs => pure ([(String.ofList key, item)], cs)
        | _ => none
      | _ => none
    | _ => none

/-- Reads a value, in which the values inside an array or an object are read by `inner?`. Without
it there may be none. -/
def valueLevel (inner? : Option (Read Json)) : Read Json := fun cs ↦
  match skipSpace cs with
  | 'n' :: 'u' :: 'l' :: 'l' :: cs => some (null, cs)
  | 't' :: 'r' :: 'u' :: 'e' :: cs => some (bool true, cs)
  | 'f' :: 'a' :: 'l' :: 's' :: 'e' :: cs => some (bool false, cs)
  | '"' :: cs => (stringRest none cs).map fun (s, cs) ↦ (string (String.ofList s), cs)
  | '[' :: cs => do
    let inner ← inner?
    match skipSpace cs with
    | ']' :: cs => pure (array [], cs)
    | cs => do
      let (items, cs) ← itemsUpTo inner cs.length cs
      pure (array items, cs)
  | '{' :: cs => do
    let inner ← inner?
    match skipSpace cs with
    | '}' :: cs => pure (object [], cs)
    | cs => do
      let (members, cs) ← membersUpTo inner cs.length cs
      pure (object members, cs)
  | cs => (numberLiteral cs).map fun (n, cs) ↦ (number n, cs)

/-- Reads a value in which at most the given number of arrays and objects enclose one another. -/
def valueUpTo : Nat → Read Json
  | 0 => valueLevel none
  | room + 1 => valueLevel (some (valueUpTo room))

/-- The value that a whole text writes. -/
def read? (text : List Char) : Option Json :=
  match valueUpTo maxDepth text with
  | some (value, rest) => if (skipSpace rest).isEmpty then some value else none
  | none => none

end PolicySchema.Json
