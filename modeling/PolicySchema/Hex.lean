/-!
# Hexadecimal digits

A digit is written in lower case and read in either case. `value?_digit` says that a written digit
is read back.
-/

namespace PolicySchema.Hex

/-- The digit of a number below 16, in lower case. -/
def digit (n : Nat) : Char :=
  if n < 10 then Char.ofNat (n + 0x30) else Char.ofNat (n + 0x57)

/-- The value of a digit. -/
def value? (c : Char) : Option Nat :=
  if '0' ≤ c ∧ c ≤ '9' then some (c.toNat - '0'.toNat)
  else if 'a' ≤ c ∧ c ≤ 'f' then some (c.toNat - 'a'.toNat + 10)
  else if 'A' ≤ c ∧ c ≤ 'F' then some (c.toNat - 'A'.toNat + 10)
  else none

/-- A written digit is read back. -/
theorem value?_digit : ∀ n < 16, value? (digit n) = some n := by decide

end PolicySchema.Hex
