import PolicySchema.Hex
import PolicySchema.Json

/-!
# Writing JSON

The pretty form has each item and each member on a line of its own, indented by two spaces for each
enclosing array or object. An empty array or object takes no lines.
-/

namespace PolicySchema.Json

/-- The written form of a character inside a string. -/
def escapeChar (c : Char) : List Char :=
  if c = '"' then ['\\', '"']
  else if c = '\\' then ['\\', '\\']
  else if c = '\x08' then ['\\', 'b']
  else if c = '\t' then ['\\', 't']
  else if c = '\n' then ['\\', 'n']
  else if c = '\x0c' then ['\\', 'f']
  else if c = '\r' then ['\\', 'r']
  else if c.toNat < 0x20 then
    ['\\', 'u', '0', '0', Hex.digit (c.toNat / 16), Hex.digit (c.toNat % 16)]
  else [c]

/-- The written form of a string. -/
def stringChars (s : String) : List Char := '"' :: s.toList.flatMap escapeChar ++ ['"']

/-- The written form of digits. -/
def digitsChars (ds : List Nat) : List Char := ds.map fun d ↦ Char.ofNat (d + 0x30)

/-- The written form of a number. -/
def numberChars (n : JsonNumber) : List Char :=
  (if n.negative then ['-'] else []) ++ digitsChars n.whole ++
    (if n.fraction.isEmpty then [] else '.' :: digitsChars n.fraction) ++
    (if n.exponent = 0 then [] else 'e' :: (toString n.exponent).toList)

/-- The end of a line and the indentation of the next. -/
def lineBreak (indent : Nat) : List Char := '\n' :: List.replicate indent ' '

mutual

/-- The pretty form of a value that stands on a line with the given indentation. -/
def prettyChars (indent : Nat) : Json → List Char
  | null => ['n', 'u', 'l', 'l']
  | bool true => ['t', 'r', 'u', 'e']
  | bool false => ['f', 'a', 'l', 's', 'e']
  | number n => numberChars n
  | string s => stringChars s
  | array [] => ['[', ']']
  | array (item :: items) =>
    '[' :: lineBreak (indent + 2) ++ prettyChars (indent + 2) item ++
      prettyItems (indent + 2) items ++ lineBreak indent ++ [']']
  | object [] => ['{', '}']
  | object ((key, value) :: members) =>
    '{' :: lineBreak (indent + 2) ++ stringChars key ++ [':', ' '] ++
      prettyChars (indent + 2) value ++ prettyMembers (indent + 2) members ++ lineBreak indent ++
      ['}']

/-- Items after the first, each on a line of its own. -/
def prettyItems (indent : Nat) : List Json → List Char
  | [] => []
  | item :: items =>
    ',' :: lineBreak indent ++ prettyChars indent item ++ prettyItems indent items

/-- Members after the first, each on a line of its own. -/
def prettyMembers (indent : Nat) : List (String × Json) → List Char
  | [] => []
  | (key, value) :: members =>
    ',' :: lineBreak indent ++ stringChars key ++ [':', ' '] ++ prettyChars indent value ++
      prettyMembers indent members

end

/-- The pretty form of a value. -/
def pretty (j : Json) : String := String.ofList (prettyChars 0 j)

end PolicySchema.Json
