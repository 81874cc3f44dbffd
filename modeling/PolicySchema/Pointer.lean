/-!
# Pointers into JSON values

A pointer leads from the root of a JSON value to a part of it, one key at a time. In the written
form each key stands after a slash, with the slashes and tildes in it escaped.
-/

namespace PolicySchema

/-- The keys that lead from the root of a JSON value to a part of it. -/
structure Pointer where
  keys : List String
  deriving DecidableEq, Repr

namespace Pointer

/-- The whole value. -/
def root : Pointer := ⟨[]⟩

/-- The part under a key. -/
def child (p : Pointer) (key : String) : Pointer := ⟨p.keys ++ [key]⟩

/-- The pointer leads nowhere but to the whole value. -/
def isRoot (p : Pointer) : Bool := p.keys.isEmpty

/-- A character of a key in the written form. -/
def escape : Char → List Char
  | '~' => ['~', '0']
  | '/' => ['~', '1']
  | c => [c]

/-- The characters of the written form: each key after a slash. -/
def chars (p : Pointer) : List Char := p.keys.flatMap fun key ↦ '/' :: key.toList.flatMap escape

/-- The written form of a pointer. -/
def text (p : Pointer) : String := String.ofList p.chars

end Pointer

end PolicySchema
