import PolicySchema.Identifier

/-!
# Names

A name is a path of identifiers ending in a basename, written with `::` between its components.
A name without a path is bare. Names are ordered component by component.
-/

namespace PolicySchema

/-- A basename inside a possibly empty path. -/
structure Name where
  /-- The components before the last. -/
  path : List Identifier
  basename : Identifier
  deriving DecidableEq

namespace Name

/-- All components of a name, the basename last. -/
def components (n : Name) : List Identifier := n.path ++ [n.basename]

/-- The name with the given components. -/
def ofComponents? (ids : List Identifier) : Option Name :=
  ids.getLast?.map fun basename ↦ ⟨ids.dropLast, basename⟩

/-- The components determine the name. -/
theorem components_inj {a b : Name} : a.components = b.components ↔ a = b := by
  constructor
  · intro h
    obtain ⟨hp, hb⟩ := List.append_inj' h rfl
    cases a; cases b
    cases hp; cases hb
    rfl
  · rintro rfl
    rfl

/-- Names are ordered by their components, a shorter name before its extensions. -/
instance : Ord Name := ⟨compareOn components⟩

/-- The order of names is that of their components. -/
instance : Std.TransOrd Name := inferInstanceAs (Std.TransCmp (compareOn components))

/-- Names that compare as equal have the same components. -/
instance : Std.LawfulEqOrd Name where
  compare_self := by
    intro a
    exact (Std.ReflOrd.compare_self : compare a.components a.components = .eq)
  eq_of_compare h := by
    have h' : compare _ _ = Ordering.eq := h
    exact components_inj.mp (Std.LawfulEqOrd.eq_of_compare h')

/-- The name of one component. -/
def bare (id : Identifier) : Name := ⟨[], id⟩

/-- The name has one component. -/
def isBare (n : Name) : Bool := n.path.isEmpty

/-- The name of what encloses the basename, if anything does. -/
def enclosing? (n : Name) : Option Name := ofComponents? n.path

/-- The name of `n` inside `outer`. -/
def append (outer n : Name) : Name := ⟨outer.components ++ n.path, n.basename⟩

/-- Names are joined as their components are. -/
instance : Append Name := ⟨append⟩

/-- The name of what a namespace declares as `id`, where `none` is the anonymous namespace. -/
def under (ns : Option Name) (id : Identifier) : Name :=
  match ns with
  | none => bare id
  | some ns => ns ++ bare id

/-- The full name that is meant where a name is written in a namespace: a bare one is put under the
namespace, and any other stays as it is. -/
def seenFrom (n : Name) (ns : Option Name) : Name :=
  if n.isBare then under ns n.basename else n

/-- The separator of components. -/
def separator : String := "::"

/-- The components of a name with the separator between them. -/
def text (n : Name) : String := separator.intercalate (n.components.map Identifier.text)

/-- Splits characters at each `::`, from the left. -/
def splitComponents : List Char → List (List Char)
  | ':' :: ':' :: cs => [] :: splitComponents cs
  | c :: cs =>
    match splitComponents cs with
    | [] => [[c]]
    | part :: parts => (c :: part) :: parts
  | [] => [[]]

/-- Reads components in order; the first that is no identifier decides the error. -/
def parseComponents (whole : String) : List (List Char) → Except NameError (List Identifier)
  | [] => .ok []
  | part :: parts =>
    match Identifier.parse (String.ofList part) with
    | .ok id => (parseComponents whole parts).map (id :: ·)
    | .error .reserved => .error .reserved
    | .error _ => .error (.notName whole)

/-- The name with the given text. -/
def parse (text : String) : Except NameError Name :=
  match parseComponents text (splitComponents text.toList) with
  | .error e => .error e
  | .ok ids =>
    match ofComponents? ids with
    | some n => .ok n
    | none => .error (.notName text)

/-- The message for a text of a data format that should be a name. -/
def unreadable (text : String) (error : NameError) : String :=
  "invalid name `" ++ text ++ "`: " ++ error.message

/-- The namespace of the built-in types. -/
def builtinNamespace : Identifier := ⟨"__cedar", by decide⟩

/-- The basename of a name directly inside the namespace of the built-in types. -/
def builtin? (n : Name) : Option Identifier :=
  if n.path = [builtinNamespace] then some n.basename else none

/-- A name is made of its components. -/
theorem ofComponents?_components (n : Name) : ofComponents? n.components = some n := by
  simp [ofComponents?, components]

/-- The components of a name inside another follow those of the other. -/
theorem components_append (outer n : Name) :
    (outer ++ n).components = outer.components ++ n.components := by
  change (append outer n).components = _
  simp [append, components]

end Name

end PolicySchema
