import PolicySchema.Table
import PolicySchema.Name

/-!
# Type expressions

A type expression is built from leaves by sets and records. Before resolving the leaves are
references (`TypeRef`), afterwards they are atoms with nothing left to look up (`Atom`). The two
measures of nesting are `depth`, by recursion on the expression, and `nestingDepth`, which works
through a stack of pending parts (`Measurement`).
-/

namespace PolicySchema

/-- Annotations: a text for each key, often empty. -/
abbrev Annotations := Table Identifier String

/-- The primitive types. -/
inductive Primitive where
  | string
  | long
  | bool
  deriving DecidableEq, Repr

namespace Primitive

/-- The canonical name of a primitive type. -/
def text : Primitive → String
  | string => "String"
  | long => "Long"
  | bool => "Bool"

/-- The primitive type that a bare name means. The type of truth values has two names. -/
def ofName? (name : String) : Option Primitive :=
  if name = "String" then some string
  else if name = "Long" then some long
  else if name = "Bool" || name = "Boolean" then some bool
  else none

end Primitive

/-- What a type expression may refer to before names are looked up. -/
inductive TypeRef where
  | primitive (p : Primitive)
  /-- A name that must be that of an entity type. -/
  | entity (name : Name)
  /-- A name that must be that of a common type. -/
  | common (name : Name)
  /-- A name that may be either, or a built-in type. -/
  | entityOrCommon (name : Name)
  | extension (id : Identifier)
  deriving DecidableEq

/-- What a type expression may refer to once all names are looked up. -/
inductive Atom where
  | primitive (p : Primitive)
  | entity (name : Name)
  | extension (id : Identifier)
  deriving DecidableEq

mutual

/-- A type over leaves of a given kind. -/
inductive TypeExpr (ρ : Type) where
  | leaf (r : ρ)
  | set (element : TypeExpr ρ)
  | record (fields : Fields ρ) (annotations : Annotations)
  deriving DecidableEq

/-- The attributes of a record, in ascending key order. -/
inductive Fields (ρ : Type) where
  | nil
  | cons (key : String) (type : TypeExpr ρ) (required : Bool) (annotations : Annotations)
      (rest : Fields ρ)
  deriving DecidableEq

end

/-- The value of a record under one key. -/
structure Attribute (ρ : Type) where
  type : TypeExpr ρ
  /-- The attribute must be present. -/
  required : Bool
  annotations : Annotations
  deriving DecidableEq

/-- A record type on its own. -/
structure RecordType (ρ : Type) where
  fields : Fields ρ
  annotations : Annotations
  deriving DecidableEq

namespace Fields

variable {ρ : Type}

/-- The attributes with their keys, in order. -/
def toList : Fields ρ → List (String × Attribute ρ)
  | nil => []
  | cons key type required annotations rest => (key, ⟨type, required, annotations⟩) :: rest.toList

/-- The record with the listed attributes. -/
def ofList : List (String × Attribute ρ) → Fields ρ
  | [] => nil
  | (key, a) :: rest => cons key a.type a.required a.annotations (ofList rest)

/-- The record with the attributes of a table. -/
def ofTable (t : Table String (Attribute ρ)) : Fields ρ := ofList t.entries

/-- The attribute under a key. -/
def find? (key : String) : Fields ρ → Option (Attribute ρ)
  | nil => none
  | cons k type required annotations rest =>
    if key = k then some ⟨type, required, annotations⟩ else rest.find? key

/-- The record has no attributes. -/
def isEmpty : Fields ρ → Bool
  | nil => true
  | cons .. => false

/-- Listing the attributes of a listed record gives the list. -/
theorem toList_ofList (l : List (String × Attribute ρ)) : (ofList l).toList = l := by
  induction l with
  | nil => rfl
  | cons head rest ih => simp [ofList, toList, ih]

/-- A record is determined by the list of its attributes. -/
theorem ofList_toList (f : Fields ρ) : ofList f.toList = f :=
  match f with
  | nil => rfl
  | cons _ _ _ _ rest => by simp [toList, ofList, ofList_toList rest]

end Fields

namespace RecordType

variable {ρ : Type}

/-- The record without attributes and annotations. -/
def empty : RecordType ρ := ⟨.nil, ∅⟩

/-- The empty record stands for any. -/
instance : Inhabited (RecordType ρ) := ⟨empty⟩

/-- The record as a type. -/
def toType (r : RecordType ρ) : TypeExpr ρ := .record r.fields r.annotations

end RecordType

namespace TypeExpr

variable {ρ : Type}

/-- The record that a type is, if it is one. -/
def record? : TypeExpr ρ → Option (RecordType ρ)
  | record fields annotations => some ⟨fields, annotations⟩
  | _ => none

/-- The type is a record without attributes. -/
def isEmptyRecord : TypeExpr ρ → Bool
  | record fields _ => fields.isEmpty
  | _ => false

/-- The most sets and records that may enclose one another. -/
def maxDepth : Nat := 32

end TypeExpr

mutual

/-- The number of sets and records that enclose one another along the deepest path. -/
def TypeExpr.depth {ρ : Type} : TypeExpr ρ → Nat
  | .leaf _ => 0
  | .set element => element.depth + 1
  | .record fields _ => fields.depth + 1

/-- The greatest depth of an attribute's type. -/
def Fields.depth {ρ : Type} : Fields ρ → Nat
  | .nil => 0
  | .cons _ type _ _ rest => max type.depth rest.depth

end

mutual

/-- The number of leaves, sets and records in a type. -/
def TypeExpr.size {ρ : Type} : TypeExpr ρ → Nat
  | .leaf _ => 1
  | .set element => element.size + 1
  | .record fields _ => fields.size + 1

/-- The number of leaves, sets and records in the attributes' types. -/
def Fields.size {ρ : Type} : Fields ρ → Nat
  | .nil => 0
  | .cons _ type _ _ rest => type.size + rest.size

end

/-- The state of measuring a type part by part. -/
structure Measurement (ρ : Type) where
  /-- The greatest depth met so far. -/
  deepest : Nat
  /-- The parts to be looked at, each with the number of sets and records around it. What was put
  there last comes first. -/
  pending : List (TypeExpr ρ × Nat)

namespace Measurement

variable {ρ : Type}

/-- The whole type is pending. -/
def start (t : TypeExpr ρ) : Measurement ρ := ⟨0, [(t, 0)]⟩

/-- Looks at the next part. The element of a set is pending instead of it, and so are the types of
the attributes instead of a record. A depth is met at leaves and records. -/
def step (m : Measurement ρ) : Measurement ρ :=
  match m.pending with
  | [] => m
  | (.leaf _, around) :: rest => ⟨max m.deepest around, rest⟩
  | (.set element, around) :: rest => ⟨m.deepest, (element, around + 1) :: rest⟩
  | (.record fields _, around) :: rest =>
    ⟨max m.deepest (around + 1),
      (fields.toList.map fun e ↦ (e.2.type, around + 1)).reverse ++ rest⟩

/-- The number of leaves, sets and records in the pending parts. -/
def work (m : Measurement ρ) : Nat := m.pending.foldr (fun p n ↦ p.1.size + n) 0

private theorem work_attributes (deepest around : Nat) (fields : Fields ρ)
    (rest : List (TypeExpr ρ × Nat)) :
    work ⟨deepest, (fields.toList.map fun e ↦ (e.2.type, around)).reverse ++ rest⟩ =
      fields.size + work ⟨deepest, rest⟩ :=
  match fields with
  | .nil => (Nat.zero_add _).symm
  | .cons _ type _ _ others => by
    -- The first attribute is the last of them on the stack.
    rw [Fields.toList, List.map_cons, List.reverse_cons, List.append_assoc, List.singleton_append,
      work_attributes _ _ others, Fields.size]
    simp only [work, List.foldr_cons]
    omega

/-- Each step looks at one leaf, set or record. -/
theorem work_step {m : Measurement ρ} {p : TypeExpr ρ × Nat} {rest : List (TypeExpr ρ × Nat)}
    (h : m.pending = p :: rest) : m.step.work + 1 = m.work := by
  obtain ⟨deepest, pending⟩ := m
  obtain rfl : pending = p :: rest := h
  obtain ⟨t, around⟩ := p
  cases t with
  | leaf r => exact Nat.add_comm _ 1
  | set element => exact Nat.add_right_comm _ _ 1
  | record fields annotations =>
    rw [step, work_attributes, Nat.add_right_comm]
    rfl

/-- The greatest depth that is met when nothing is pending any more. -/
def finish (m : Measurement ρ) : Nat :=
  match _h : m.pending with
  | [] => m.deepest
  | _ :: _ => finish m.step
termination_by m.work
decreasing_by exact Nat.lt_of_succ_le (Nat.le_of_eq (work_step _h))

end Measurement

/-- The depth of a type, measured part by part. -/
def TypeExpr.nestingDepth {ρ : Type} (t : TypeExpr ρ) : Nat := (Measurement.start t).finish

mutual

/-- The type with every leaf replaced by a type. -/
def TypeExpr.bind {ρ σ : Type} (f : ρ → TypeExpr σ) : TypeExpr ρ → TypeExpr σ
  | .leaf r => f r
  | .set element => .set (element.bind f)
  | .record fields annotations => .record (fields.bind f) annotations

/-- The attributes with every leaf of their types replaced by a type. -/
def Fields.bind {ρ σ : Type} (f : ρ → TypeExpr σ) : Fields ρ → Fields σ
  | .nil => .nil
  | .cons key type required annotations rest =>
    .cons key (type.bind f) required annotations (rest.bind f)

end

end PolicySchema
