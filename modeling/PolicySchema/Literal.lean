import PolicySchema.Hex

/-!
# Quoted text

A string literal stands between double quotes. Control characters, quotes and the backslash are
escaped and everything else is written as it is.
-/

namespace PolicySchema.Literal

/-- The written form of a character inside a literal. -/
def escape (c : Char) : List Char :=
  if c = '\n' then ['\\', 'n']
  else if c = '\r' then ['\\', 'r']
  else if c = '\t' then ['\\', 't']
  else if c = '\\' then ['\\', '\\']
  else if c = '"' then ['\\', '"']
  else if c = '\'' then ['\\', '\'']
  else if c = '\x00' then ['\\', '0']
  else if c.toNat < 0x20 || (0x7F ≤ c.toNat && c.toNat ≤ 0x9F) then
    ['\\', 'x', Hex.digit (c.toNat / 16), Hex.digit (c.toNat % 16)]
  else [c]

/-- The characters of the literal for a text. -/
def quoteChars (text : List Char) : List Char := '"' :: text.flatMap escape ++ ['"']

/-- The literal for a text. -/
def quote (text : String) : String := String.ofList (quoteChars text.toList)

example : quote "a\"\t\x1b" = "\"a\\\"\\t\\x1b\"" := by decide +kernel

end PolicySchema.Literal
