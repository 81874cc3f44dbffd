import PolicySchema.Json

/-!
# The range of JSON numbers

A number is in range when it can be held as a binary floating point number of 64 bits. As many
leading digits as fit into 64 bits are rounded to such a number, and so is the power of ten that
they are multiplied with. The number is out of range when the product is too large.
-/

namespace PolicySchema.JsonNumber

/-- The largest significand kept. -/
def maxSignificand : Nat := Nat.pow 2 64 - 1

/-- The digits before the point as a significand and an exponent of ten. The digits from the first
that does not fit only count towards the exponent. -/
def takeWhole : Nat → List Nat → Nat × Nat
  | significand, [] => (significand, 0)
  | significand, d :: ds =>
    if maxSignificand < significand * 10 + d then (significand, (d :: ds).length)
    else takeWhole (significand * 10 + d) ds

/-- The significand with the digits after the point added, up to the first that does not fit, and
how many were added. -/
def takeFraction : Nat → List Nat → Nat × Nat
  | significand, [] => (significand, 0)
  | significand, d :: ds =>
    if maxSignificand < significand * 10 + d then (significand, 0)
    else
      let (all, count) := takeFraction (significand * 10 + d) ds
      (all, count + 1)

/-- The nearest number with 53 significant bits. Of two that are equally near, the even one. -/
def roundToDouble (n : Nat) : Nat :=
  let extra := n.log2 + 1 - 53
  let unit := Nat.pow 2 extra
  let low := n / unit
  let rest := n % unit
  if 2 * rest < unit ∨ (2 * rest = unit ∧ low % 2 = 0) ∨ extra = 0 then low * unit
  else (low + 1) * unit

/-- The least number that is rounded beyond the largest finite one. -/
def overflowBound : Nat := Nat.pow 2 1024 - Nat.pow 2 970

/-- The greatest exponent of a power of ten that is finite. -/
def maxExponent : Nat := 308

/-- The number is in range. -/
def inRange (n : JsonNumber) : Bool :=
  let (whole, skipped) := takeWhole 0 n.whole
  let (significand, added) := takeFraction whole n.fraction
  match n.exponent + skipped - added with
  | .negSucc _ => true
  | .ofNat e =>
    significand == 0 ||
      (e ≤ maxExponent && roundToDouble significand * roundToDouble (Nat.pow 10 e) < overflowBound)

example : inRange ⟨false, [1], [], 999⟩ = false := by decide +kernel
example : inRange ⟨false, [0], [], 999⟩ = true := by decide +kernel
example : inRange ⟨true, [1], [7, 9], 308⟩ = true := by decide +kernel
example : inRange ⟨true, [1], [8], 308⟩ = false := by decide +kernel

end PolicySchema.JsonNumber
