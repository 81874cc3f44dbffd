import PolicySchema.Unicode.Alphabetic
import PolicySchema.Unicode.Numeric

/-!
# Identifiers

A word begins with an underscore or an alphabetic character and goes on with underscores,
alphabetic and numeric characters. An identifier is a word other than the reserved `in`.
-/

namespace PolicySchema

/-- Why a text is not an identifier or a name. -/
inductive NameError where
  /-- The text is not a word. -/
  | notIdentifier (text : String)
  /-- The text is not a sequence of words separated by `::`. -/
  | notName (text : String)
  /-- The reserved word stands where an identifier is needed. -/
  | reserved
  deriving DecidableEq, Repr

/-- The message of a name error. -/
def NameError.message : NameError → String
  | .notIdentifier text => "`" ++ text ++ "` is not a valid identifier"
  | .notName text => "`" ++ text ++ "` is not a valid name"
  | .reserved => "`in` is a reserved identifier"

/-- The character may begin a word. -/
def isWordStart (c : Char) : Bool :=
  c == '_' || Unicode.isAlphabetic c

/-- The character may continue a word. -/
def isWordContinue (c : Char) : Bool :=
  c == '_' || Unicode.isAlphabetic c || Unicode.isNumeric c

/-- The characters form a word. -/
def isWordChars : List Char → Bool
  | [] => false
  | c :: cs => isWordStart c && cs.all isWordContinue

/-- The text is a word. -/
def isWord (text : String) : Bool := isWordChars text.toList

/-- The word that is no identifier. -/
def reservedWord : String := "in"

/-- The text can stand bare as an identifier: it is a word and not the reserved one. -/
def isBare (text : String) : Bool := isWord text && text != reservedWord

/-- A word other than the reserved one. -/
structure Identifier where
  text : String
  bare : isBare text = true
  deriving DecidableEq

namespace Identifier

/-- Identifiers are equal when their texts are. -/
theorem ext {a b : Identifier} (h : a.text = b.text) : a = b := by
  cases a; cases b; cases h; rfl

/-- Identifiers are ordered by their texts. -/
instance : Ord Identifier := ⟨compareOn Identifier.text⟩

/-- The order of identifiers is that of their texts. -/
instance : Std.TransOrd Identifier := inferInstanceAs (Std.TransCmp (compareOn Identifier.text))

/-- Identifiers that compare as equal have the same text. -/
instance : Std.LawfulEqOrd Identifier where
  compare_self := by
    intro a
    exact (Std.ReflOrd.compare_self : compare a.text a.text = .eq)
  eq_of_compare h := by
    have h' : compare _ _ = Ordering.eq := h
    exact ext (Std.LawfulEqOrd.eq_of_compare h')

/-- The identifier with the given text. -/
def parse (text : String) : Except NameError Identifier :=
  if h : isBare text = true then .ok ⟨text, h⟩
  else if text = reservedWord then .error .reserved
  else .error (.notIdentifier text)

/-- The message for a text of a data format that should be an identifier. -/
def unreadable (text : String) (error : NameError) : String :=
  "invalid id `" ++ text ++ "`: " ++ error.message

/-- A text parses exactly to the identifier that has it. -/
theorem parse_eq_ok_iff {text : String} {id : Identifier} :
    parse text = .ok id ↔ id.text = text := by
  constructor
  · intro h
    simp only [parse] at h
    split at h
    · cases h; rfl
    · split at h <;> cases h
  · rintro rfl
    simp [parse, id.bare]

/-- The text of an identifier parses to it. -/
theorem parse_text (id : Identifier) : parse id.text = .ok id := parse_eq_ok_iff.mpr rfl

end Identifier

end PolicySchema
