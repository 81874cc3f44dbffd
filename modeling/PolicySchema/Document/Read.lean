import PolicySchema.Document.ToSchema
import PolicySchema.Json.Range
import PolicySchema.Json.Read
import PolicySchema.Unicode.Utf8

/-!
# Reading the JSON form

A schema is read from bytes, a JSON text or a JSON value. A text that is no JSON and a value that is
no document fail alike, at the root, before any name is looked at.
-/

namespace PolicySchema

namespace Document

/-- The schema that a JSON value holds. -/
def readValue (j : Json) : Except Error Schema :=
  match Document.ofJson? j with
  | some d => toSchema d
  | none => failAt .root .malformed

/-- The schema that a JSON text holds. -/
def read (text : List Char) : Except Error Schema :=
  match Json.read? text with
  | some j => readValue j
  | none => failAt .root .malformed

/-- The schema that the bytes of a JSON text hold. -/
def readBytes (bytes : List UInt8) : Except Error Schema :=
  match Unicode.Utf8.decode? bytes with
  | some text => read text
  | none => failAt .root .malformed

/-- The value of a JSON text in which the last member of each key counts, if all its numbers are in
range. -/
def plainValue? (text : List Char) : Option Json :=
  match Json.read? text with
  | some j => if j.allNumbers JsonNumber.inRange then some j.lastOfEach else none
  | none => none

end Document

end PolicySchema
