import PolicySchema.Document

/-!
# From JSON to documents

An object with fixed fields may also be written as an array of their values in order. Unknown and
repeated fields, missing required ones and values of the wrong kind are refused. An optional field
may be left out of an object or be null; in an array its place has to be filled.
-/

namespace PolicySchema

/-- What a fixed field was given. -/
inductive Slot where
  /-- The object has no member for the field. -/
  | missing
  /-- The array ends before the place of the field. -/
  | cut
  | given (value : Json)

namespace Slot

variable {α : Type}

/-- A field that may be left out of an object or be null. -/
def optional (read? : Json → Option α) : Slot → Option (Option α)
  | missing => some none
  | cut => none
  | given .null => some none
  | given value => (read? value).map some

/-- A field that must be given. -/
def required (read? : Json → Option α) : Slot → Option α
  | given value => read? value
  | _ => none

/-- A list that is empty if the field is not given. -/
def orEmpty (read? : Json → Option (List α)) : Slot → Option (List α)
  | given value => read? value
  | _ => some []

end Slot

namespace Json

variable {α : Type}

/-- The value of the first member with a key. -/
def member? (key : String) : List (String × Json) → Option Json
  | [] => none
  | (k, value) :: rest => if key = k then some value else member? key rest

/-- What an object or an array gives to fixed fields. -/
def slots? (fields : List String) : Json → Option (List Slot)
  | object members =>
    let keys := members.map Prod.fst
    if keys.all fields.contains && (firstRepeated? [] keys).isNone then
      some (fields.map fun f ↦
        match member? f members with
        | some value => .given value
        | none => .missing)
    else none
  | array items =>
    if items.length ≤ fields.length then
      some (items.map .given ++ List.replicate (fields.length - items.length) .cut)
    else none
  | _ => none

/-- A string. -/
def string? : Json → Option String
  | string s => some s
  | _ => none

/-- A truth value. -/
def bool? : Json → Option Bool
  | bool b => some b
  | _ => none

/-- An array of values of one kind. -/
def list? (read? : Json → Option α) : Json → Option (List α)
  | array items => items.mapM read?
  | _ => none

/-- An object with chosen keys and values of one kind. -/
def members? (read? : Json → Option α) : Json → Option (Members α)
  | object members => members.mapM fun (key, value) ↦ (read? value).map (key, ·)
  | _ => none

end Json

open Json

/-- A type object in which at most the given number of arrays and objects enclose one another. -/
def TypeObject.ofJsonUpTo? : Nat → Json → Option TypeObject
  | 0, _ => none
  | n + 1, j => do
    match ← slots? ["type", "element", "attributes", "name", "required", "annotations"] j with
    | [type, element, attributes, name, required, annotations] =>
      pure {
        type := ← type.required string?
        element := ← element.optional (ofJsonUpTo? n)
        attributes := ← attributes.optional (members? (ofJsonUpTo? n))
        name := ← name.optional string?
        required := ← required.optional bool?
        annotations := ← annotations.orEmpty (members? string?) }
    | _ => none

/-- A type object. -/
def TypeObject.ofJson? (j : Json) : Option TypeObject := TypeObject.ofJsonUpTo? j.depth j

/-- The object of an entity type. -/
def EntityTypeObject.ofJson? (j : Json) : Option EntityTypeObject := do
  match ← slots? ["memberOfTypes", "shape", "tags", "enum", "annotations"] j with
  | [memberOfTypes, shape, tags, values, annotations] =>
    pure {
      memberOfTypes := ← memberOfTypes.optional (list? string?)
      shape := ← shape.optional TypeObject.ofJson?
      tags := ← tags.optional TypeObject.ofJson?
      values := ← values.optional (list? string?)
      annotations := ← annotations.orEmpty (members? string?) }
  | _ => none

/-- The object of a reference to an action. -/
def ActionRefObject.ofJson? (j : Json) : Option ActionRefObject := do
  match ← slots? ["type", "id"] j with
  | [type, id] => pure { type := ← type.optional string?, id := ← id.required string? }
  | _ => none

/-- The object of what an action applies to. -/
def AppliesToObject.ofJson? (j : Json) : Option AppliesToObject := do
  match ← slots? ["principalTypes", "resourceTypes", "context"] j with
  | [principalTypes, resourceTypes, context] =>
    pure {
      principalTypes := ← principalTypes.optional (list? string?)
      resourceTypes := ← resourceTypes.optional (list? string?)
      context := ← context.optional TypeObject.ofJson? }
  | _ => none

/-- The object of an action. -/
def ActionObject.ofJson? (j : Json) : Option ActionObject := do
  match ← slots? ["memberOf", "appliesTo", "annotations"] j with
  | [memberOf, appliesTo, annotations] =>
    pure {
      memberOf := ← memberOf.optional (list? ActionRefObject.ofJson?)
      appliesTo := ← appliesTo.optional AppliesToObject.ofJson?
      annotations := ← annotations.orEmpty (members? string?) }
  | _ => none

/-- The object of a namespace. -/
def NamespaceObject.ofJson? (j : Json) : Option NamespaceObject := do
  match ← slots? ["annotations", "commonTypes", "entityTypes", "actions"] j with
  | [annotations, commonTypes, entityTypes, actions] =>
    pure {
      annotations := ← annotations.orEmpty (members? string?)
      commonTypes := ← commonTypes.orEmpty (members? TypeObject.ofJson?)
      entityTypes := ← entityTypes.required (members? EntityTypeObject.ofJson?)
      actions := ← actions.required (members? ActionObject.ofJson?) }
  | _ => none

/-- The document that a JSON value holds. -/
def Document.ofJson? (j : Json) : Option Document := members? NamespaceObject.ofJson? j

end PolicySchema
