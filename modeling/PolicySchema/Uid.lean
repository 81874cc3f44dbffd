import PolicySchema.Literal
import PolicySchema.Name

/-!
# Entity identities

An entity is identified by its entity type and a text. The text is quoted in the written form, so
that the two parts can be told apart.
-/

namespace PolicySchema

/-- The identity of an entity. -/
structure Uid where
  type : Name
  id : String
  deriving DecidableEq

namespace Uid

/-- Identities are ordered by type, then by text. -/
instance : Ord Uid := ⟨compareLex (compareOn Uid.type) (compareOn Uid.id)⟩

/-- The order of identities is transitive, since those of types and of texts are. -/
instance : Std.TransOrd Uid :=
  inferInstanceAs (Std.TransCmp (compareLex (compareOn Uid.type) (compareOn Uid.id)))

/-- Identities that compare as equal have the same type and the same text. -/
instance : Std.LawfulEqOrd Uid where
  compare_self := by
    intro a
    exact Std.ReflCmp.compare_self
  eq_of_compare := by
    intro a b h
    have h' : compareLex (compareOn Uid.type) (compareOn Uid.id) a b = Ordering.eq := h
    obtain ⟨ht, hi⟩ := Ordering.then_eq_eq.mp h'
    cases a; cases b
    cases Std.LawfulEqOrd.eq_of_compare ht
    cases Std.LawfulEqOrd.eq_of_compare hi
    rfl

/-- The written form of an identity. -/
def text (u : Uid) : String := u.type.text ++ "::" ++ Literal.quote u.id

end Uid

/-- The basename of the entity type of actions. -/
def actionBasename : Identifier := ⟨"Action", by decide⟩

/-- The entity type of the actions of a namespace. -/
def actionEntityType (ns : Option Name) : Name := Name.under ns actionBasename

end PolicySchema
