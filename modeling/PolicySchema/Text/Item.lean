import PolicySchema.Schema
import PolicySchema.Text.Error

/-!
# Items of a text

The grammar reads a text as a sequence of items, each with the namespace that it stands in. The
items are assembled into a schema one after another, and the first that repeats an earlier one
fails. Whether a text follows the grammar does not depend on what is declared in it.
-/

namespace PolicySchema.Text

/-- A declaration under a name of its namespace. -/
structure Declared (κ α : Type) where
  ns : Option Name
  key : κ
  /-- The stretch of the name. -/
  span : Span
  body : α
  annotations : Annotations
  deriving DecidableEq

/-- What a text consists of. -/
inductive Item where
  /-- A namespace block opens, under its full name. -/
  | block (name : Name) (annotations : Annotations) (span : Span)
  | commonType (d : Declared Identifier (TypeExpr TypeRef))
  | entityType (d : Declared Identifier EntityType)
  | action (d : Declared String Action)
  deriving DecidableEq

/-- The declaration as a schema of the source holds it. -/
def Declared.toDeclaration {κ α : Type} (d : Declared κ α) (source : Source) : Declaration α :=
  ⟨d.body, d.annotations, some ⟨source, d.span⟩⟩

/-- A schema being assembled and the full names of the namespace blocks opened so far. -/
structure Assembly where
  schema : Schema
  blocks : KeySet Name

namespace Assembly

/-- Nothing assembled yet. -/
def empty : Assembly := ⟨.empty, ∅⟩

/-- The declarations that the assembled schema has in a namespace. -/
def declarations (a : Assembly) (ns : Option Name) : Namespace :=
  (a.schema.namespace? ns).getD .empty

/-- Adds an item, which may not repeat an earlier one. -/
def add (source : Source) (a : Assembly) : Item → Except Failure Assembly
  | .block name annotations span =>
    if a.blocks.contains name then .error ⟨.duplicate .namespaceBlock name.text, span⟩
    else .ok ⟨a.schema.update (some name) fun ns ↦ { ns with annotations := annotations },
      a.blocks.add name⟩
  | .commonType d =>
    if (a.declarations d.ns).commonTypes.contains d.key then
      .error ⟨.duplicate .commonType d.key.text, d.span⟩
    else .ok { a with
      schema := a.schema.update d.ns fun ns ↦
        { ns with commonTypes := ns.commonTypes.insert d.key (d.toDeclaration source) } }
  | .entityType d =>
    match (a.declarations d.ns).entityTypes.find? d.key with
    | some earlier =>
      if earlier.body.isEnumerated = d.body.isEnumerated then
        .error ⟨.duplicate .entityType d.key.text, d.span⟩
      else .error ⟨.enumConflict d.key.text, d.span⟩
    | none => .ok { a with
      schema := a.schema.update d.ns fun ns ↦
        { ns with entityTypes := ns.entityTypes.insert d.key (d.toDeclaration source) } }
  | .action d =>
    if (a.declarations d.ns).actions.contains d.key then
      .error ⟨.duplicate .action d.key, d.span⟩
    else .ok { a with
      schema := a.schema.update d.ns fun ns ↦
        { ns with actions := ns.actions.insert d.key (d.toDeclaration source) } }

/-- Adds items in order, up to the first that fails. -/
def addAll (source : Source) (a : Assembly) : List Item → Except Failure Assembly
  | [] => .ok a
  | item :: items =>
    match a.add source item with
    | .error f => .error f
    | .ok a => a.addAll source items

end Assembly

/-- The schema that the items of a source declare. -/
def assemble (source : Source) (items : List Item) : Except Failure Schema :=
  (Assembly.empty.addAll source items).map Assembly.schema

end PolicySchema.Text
