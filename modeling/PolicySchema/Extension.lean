/-!
# Extension types

The names of extension types are a closed set. Which of them a resolved schema may use is chosen
when it is resolved.
-/

namespace PolicySchema

/-- The names of the extension types, in the order in which messages list them. -/
def knownExtensions : List String := ["ipaddr", "decimal", "datetime", "duration"]

/-- The text names an extension type. -/
def isKnownExtension (name : String) : Bool := knownExtensions.contains name

/-- The advice given with an unknown extension type. -/
def knownExtensionsAdvice : String :=
  "known extension types are " ++ ", ".intercalate knownExtensions

/-- The extension types enabled for resolving, in the order in which they were chosen. -/
structure Extensions where
  enabled : List String
  deriving DecidableEq, Repr

namespace Extensions

/-- Every extension type. -/
def all : Extensions := ⟨knownExtensions⟩

/-- No extension type. -/
def none : Extensions := ⟨[]⟩

/-- The known ones among the given names. -/
def ofList (names : List String) : Extensions := ⟨names.filter isKnownExtension⟩

/-- The named extension type is enabled. -/
def isEnabled (e : Extensions) (name : String) : Bool := e.enabled.contains name

end Extensions

end PolicySchema
