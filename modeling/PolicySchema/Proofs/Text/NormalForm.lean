import PolicySchema.Proofs.References
import PolicySchema.Proofs.Table
import PolicySchema.Proofs.Text.Syntax

/-!
# What a written schema is read as

The text form does not say whether a name is that of an entity type or of a common type, it writes
built-in types by their names, and it has no place for an anonymous namespace without declarations.
A schema without these distinctions is in normal form (`Schema.normal`).
-/

namespace PolicySchema

/-- What a name is read as in a type: a primitive type, an extension type, or a name whose kind is
left open. -/
def Name.asRef (n : Name) : TypeRef :=
  match n.builtin? with
  | some id =>
    match Primitive.ofName? id.text with
    | some p => .primitive p
    | none => if isKnownExtension id.text then .extension id else .entityOrCommon n
  | none =>
    if n.isBare then
      if n.basename.text = "String" then .primitive .string
      else if n.basename.text = "Long" then .primitive .long
      else if n.basename.text = "Bool" then .primitive .bool
      else .entityOrCommon n
    else .entityOrCommon n

/-- The reference that is read where one is written. -/
def TypeRef.normal : TypeRef → TypeRef
  | .primitive p => .primitive p
  | .entity n | .common n | .entityOrCommon n => n.asRef
  | .extension id => .extension id

/-- The schema as it is read from its text: every name in a type stands for what it is read as, and
an anonymous namespace without declarations is left out. -/
def Schema.normal (s : Schema) : Schema :=
  ⟨(s.mapRefs TypeRef.normal).namespaces.filter fun name ns ↦ name.isSome || ns.hasDeclarations⟩

/-- The name is not one of the namespace of built-in types that names no such type. -/
def Name.IsWritable (n : Name) : Prop :=
  ∀ id, n.builtin? = some id →
    (Primitive.ofName? id.text).isSome = true ∨ isKnownExtension id.text = true

/-- A reference that can be read where it is written: extension types are known, and names in the
namespace of built-in types name one of them. -/
def TypeRef.IsWritable : TypeRef → Prop
  | .primitive _ => True
  | .entity n | .common n | .entityOrCommon n => n.IsWritable
  | .extension id => isKnownExtension id.text = true

namespace Text.Syntax

/-- A name means what it is read as. -/
theorem means_asRef {n : Name} (h : n.IsWritable) : Means n n.asRef := by
  unfold Name.asRef
  split
  · next id hid =>
    split
    · next p hp => exact .builtinPrimitive hid hp
    · next hp =>
      rcases h id hid with hprim | hext
      · rw [hp] at hprim
        cases hprim
      · rw [if_pos hext]
        exact .extension hid hext
  · next hid =>
    split
    · next hbare =>
      split
      · next hstring => exact .primitive hbare hstring
      · next hstring =>
        split
        · next hlong => exact .primitive hbare hlong
        · next hlong =>
          split
          · next hbool => exact .primitive hbare hbool
          · next hbool =>
            refine .other (fun p _ ↦ ?_) hid
            cases p
            · exact hstring
            · exact hlong
            · exact hbool
    · next hbare => exact .other (fun _ hn ↦ absurd hn hbare) hid

end Text.Syntax

end PolicySchema
