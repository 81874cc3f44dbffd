import PolicySchema.Unicode.Utf8
import PolicySchema.Text.Grammar.Block

/-!
# Reading the text form

A schema is read from a source or from the bytes of a file. The first error in the order of the text
ends the reading, whether it is one of the grammar or a repeated declaration.
-/

namespace PolicySchema.Text

/-- The schema that a source declares, where the stack is exhausted at the given stretches. An item
that repeats an earlier one counts before a failure that comes after it. -/
def readUnder (exhausted : StackMap) (source : Source) : Except Error Schema :=
  let progress := itemsOf exhausted (scan source.text)
  match assemble source progress.items, progress.outcome with
  | .error f, _ => .error (f.within source)
  | .ok _, .error f => .error (f.within source)
  | .ok schema, .ok _ => .ok schema

/-- The schema that a source declares, with all the stack that is needed. -/
def read (source : Source) : Except Error Schema := readUnder .ample source

/-- The schema that the bytes of a file declare. Bytes that are no UTF-8 fail where the first
ill-formed part begins. -/
def readBytes (file : String) (bytes : List UInt8) : Except Error Schema :=
  match Unicode.Utf8.decode? bytes with
  | some cs => read ⟨file, String.ofList cs⟩
  | none =>
    let start := Position.start.after (Unicode.Utf8.wellFormedStart bytes)
    .error ⟨.notUtf8, ⟨⟨file, String.ofList (Unicode.Utf8.decodeLossy bytes)⟩, ⟨start, 1⟩⟩⟩

end PolicySchema.Text
