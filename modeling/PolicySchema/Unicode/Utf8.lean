/-!
# Decoding UTF-8

A sequence of bytes is read as well-formed characters and ill-formed parts, where an ill-formed
part is as long as the start of a well-formed character reaches. Strict decoding refuses an
ill-formed part; lossy decoding shows the replacement character in its place.
-/

namespace PolicySchema.Unicode.Utf8

/-- Where decoding stands inside a character: the bits read so far, the number of bytes still
owed, and the least and the greatest byte that may come next. -/
structure Pending where
  bits : Nat
  owed : Nat
  least : Nat
  greatest : Nat
  deriving DecidableEq, Repr

/-- The effect of a byte between characters: what it completes and what it opens. -/
def first (b : Nat) : List (Option Char) × Option Pending :=
  if b < 0x80 then ([some (Char.ofNat b)], none)
  else if b < 0xC2 then ([none], none)
  else if b < 0xE0 then ([], some ⟨b - 0xC0, 1, 0x80, 0xBF⟩)
  else if b = 0xE0 then ([], some ⟨0, 2, 0xA0, 0xBF⟩)
  else if b = 0xED then ([], some ⟨0xD, 2, 0x80, 0x9F⟩)
  else if b < 0xF0 then ([], some ⟨b - 0xE0, 2, 0x80, 0xBF⟩)
  else if b = 0xF0 then ([], some ⟨0, 3, 0x90, 0xBF⟩)
  else if b < 0xF4 then ([], some ⟨b - 0xF0, 3, 0x80, 0xBF⟩)
  else if b = 0xF4 then ([], some ⟨4, 3, 0x80, 0x8F⟩)
  else ([none], none)

/-- The effect of a byte. One that cannot continue the character it stands in ends an ill-formed
part and is read again as a first byte. -/
def step : Option Pending → Nat → List (Option Char) × Option Pending
  | none, b => first b
  | some p, b =>
    if p.least ≤ b ∧ b ≤ p.greatest then
      let bits := p.bits * 64 + (b - 0x80)
      if p.owed ≤ 1 then ([some (Char.ofNat bits)], none)
      else ([], some ⟨bits, p.owed - 1, 0x80, 0xBF⟩)
    else
      let (out, state) := first b
      (none :: out, state)

/-- The parts of the bytes that follow a state: `some c` for a well-formed character and `none`
for an ill-formed part. -/
def partsFrom : Option Pending → List UInt8 → List (Option Char)
  | none, [] => []
  | some _, [] => [none]
  | state, b :: bs =>
    let (out, next) := step state b.toNat
    out ++ partsFrom next bs

/-- The well-formed characters and ill-formed parts of a byte sequence. -/
def parts (bytes : List UInt8) : List (Option Char) :=
  partsFrom none bytes

/-- The characters before the first ill-formed part. -/
def wellFormedStart (bytes : List UInt8) : List Char :=
  ((parts bytes).takeWhile Option.isSome).filterMap id

/-- The characters of a well-formed byte sequence. -/
def decode? (bytes : List UInt8) : Option (List Char) :=
  (parts bytes).mapM id

/-- The characters of a byte sequence, with the replacement character for each ill-formed part. -/
def decodeLossy (bytes : List UInt8) : List Char :=
  (parts bytes).map (·.getD '\uFFFD')

example : decode? [0x61, 0xC3, 0xA9] = some ['a', 'é'] := by decide
example : decode? [0xED, 0xA0, 0x80] = none := by decide
example : decodeLossy [0x61, 0xE2, 0x82, 0x62] = ['a', '\uFFFD', 'b'] := by decide
example : wellFormedStart [0x61, 0xF0, 0x9F, 0x98, 0x80, 0xFF, 0x62] = ['a', '😀'] := by decide

end PolicySchema.Unicode.Utf8
