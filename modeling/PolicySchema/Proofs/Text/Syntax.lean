import PolicySchema.Text.Grammar.Block

/-!
# The grammar of the text form

The grammar is stated here on its own, as relations between values and the symbols that write them.
A symbol is what the grammar sees of a token. What a text states is a list of statements in the
order in which they are written (`IsDeclarations`), and a schema holds statements when it declares
just what they say (`Holds`).
-/

namespace PolicySchema.Text

/-- What the grammar sees of a token: its kind, and the text that it stands for. -/
inductive Symbol where
  | word (text : String)
  | literal (value : String)
  | mark (m : Mark)
  | endOfInput
  deriving DecidableEq, Repr

/-- The symbol of a token. -/
def Token.symbol (t : Token) : Symbol :=
  match t.kind with
  | .word => .word t.text
  | .literal => .literal t.value
  | .mark m => .mark m
  | .endOfInput => .endOfInput

/-- A declaration or the start of a namespace block, as the grammar gives it. -/
inductive Statement where
  /-- A namespace block opens, under its full name. -/
  | block (name : Name) (notes : Annotations)
  | commonType (ns : Option Name) (key : Identifier) (body : TypeExpr TypeRef)
      (notes : Annotations)
  | entityType (ns : Option Name) (key : Identifier) (body : EntityType) (notes : Annotations)
  | action (ns : Option Name) (key : String) (body : Action) (notes : Annotations)
  deriving DecidableEq

/-- What a statement introduces, which no other statement of a text may introduce. -/
inductive Introduced where
  | block (name : Name)
  | commonType (ns : Option Name) (key : Identifier)
  | entityType (ns : Option Name) (key : Identifier)
  | action (ns : Option Name) (key : String)
  deriving DecidableEq

namespace Statement

/-- What the statement introduces. -/
def introduced : Statement → Introduced
  | block n _ => .block n
  | commonType ns key _ _ => .commonType ns key
  | entityType ns key _ _ => .entityType ns key
  | action ns key _ _ => .action ns key

/-- The namespace that the statement is about. -/
def about : Statement → Option Name
  | block n _ => some n
  | commonType ns .. | entityType ns .. | action ns .. => ns

end Statement

namespace Syntax

variable {α : Type}

/-! ### Repetition -/

/-- Any number of values. -/
inductive Repeated (P : α → List Symbol → Prop) : List α → List Symbol → Prop where
  | none : Repeated P [] []
  | more {a as u v} : P a u → Repeated P as v → Repeated P (a :: as) (u ++ v)

/-- One or more values with a mark between them. -/
inductive Separated (m : Mark) (P : α → List Symbol → Prop) : List α → List Symbol → Prop where
  | last {a u} : P a u → Separated m P [a] u
  | more {a as u v} : P a u → Separated m P as v →
      Separated m P (a :: as) (u ++ .mark m :: v)

/-- Any number of values with commas between them, and maybe a comma after the last. -/
inductive Trailing (P : α → List Symbol → Prop) : List α → List Symbol → Prop where
  | none : Trailing P [] []
  | last {a u} : P a u → Trailing P [a] u
  | more {a as u v} : P a u → Trailing P as v →
      Trailing P (a :: as) (u ++ .mark .comma :: v)

/-- A single value, or any number of values in brackets with commas between them. -/
inductive Listed (P : α → List Symbol → Prop) : List α → List Symbol → Prop where
  | single {a u} : P a u → Listed P [a] u
  | empty : Listed P [] [.mark .leftBracket, .mark .rightBracket]
  | bracketed {as u} : Separated .comma P as u →
      Listed P as (.mark .leftBracket :: u ++ [.mark .rightBracket])

/-! ### Names and annotations -/

/-- An identifier is a word other than the reserved one. -/
inductive IsIdentifier : Identifier → List Symbol → Prop where
  | word (id : Identifier) : IsIdentifier id [.word id.text]

/-- A string literal. -/
inductive IsLiteral : String → List Symbol → Prop where
  | literal (value : String) : IsLiteral value [.literal value]

/-- A key of an attribute or the name of an action: any literal, or a word that is not reserved. -/
inductive IsKey : String → List Symbol → Prop where
  | word {text : String} : text ≠ reservedWord → IsKey text [.word text]
  | literal (value : String) : IsKey value [.literal value]

/-- A name is its components with `::` between them. -/
def IsPath (n : Name) (u : List Symbol) : Prop :=
  Separated .doubleColon IsIdentifier n.components u

/-- The text of an annotation in parentheses. It is empty if they are left out. -/
inductive IsNoteText : String → List Symbol → Prop where
  | none : IsNoteText "" []
  | given (value : String) :
      IsNoteText value [.mark .leftParen, .literal value, .mark .rightParen]

/-- One annotation. -/
inductive IsAnnotation : Identifier × String → List Symbol → Prop where
  | keyed {id : Identifier} {text u} : IsNoteText text u →
      IsAnnotation (id, text) (.mark .at :: .word id.text :: u)

/-- Annotations with different keys. -/
inductive IsNotes : Annotations → List Symbol → Prop where
  | listed {entries u} : Repeated IsAnnotation entries u → (entries.map Prod.fst).Nodup →
      IsNotes (Table.ofList entries) u

/-! ### Types -/

/-- What a name means where a type is written. -/
inductive Means (n : Name) : TypeRef → Prop where
  | primitive {p : Primitive} : n.isBare = true → n.basename.text = p.text → Means n (.primitive p)
  | builtinPrimitive {id p} : n.builtin? = some id → Primitive.ofName? id.text = some p →
      Means n (.primitive p)
  | extension {id} : n.builtin? = some id → isKnownExtension id.text = true →
      Means n (.extension id)
  | other : (∀ p : Primitive, n.isBare = true → n.basename.text ≠ p.text) →
      n.builtin? = none → Means n (.entityOrCommon n)

mutual

/-- A type. -/
inductive IsType : TypeExpr TypeRef → List Symbol → Prop where
  | record {fields u} : IsRecord fields u → IsType (.record fields ∅) u
  | set {element u} : IsType element u →
      IsType (.set element) (.word "Set" :: .mark .leftAngle :: u ++ [.mark .rightAngle])
  | named {n r u} : IsPath n u → Means n r → IsType (.leaf r) u

/-- Attributes with different keys in braces. -/
inductive IsRecord : Fields TypeRef → List Symbol → Prop where
  | braces {attributes u} : Trailing IsAttribute attributes u →
      (attributes.map Prod.fst).Nodup →
      IsRecord (Fields.ofTable (Table.ofList attributes))
        (.mark .leftBrace :: u ++ [.mark .rightBrace])

/-- An attribute under its key. -/
inductive IsAttribute : String × Attribute TypeRef → List Symbol → Prop where
  | required {key notes type u v w} : IsNotes notes u → IsKey key v → IsType type w →
      IsAttribute (key, ⟨type, true, notes⟩) (u ++ v ++ .mark .colon :: w)
  | optional {key notes type u v w} : IsNotes notes u → IsKey key v → IsType type w →
      IsAttribute (key, ⟨type, false, notes⟩)
        (u ++ v ++ .mark .question :: .mark .colon :: w)

end

/-! ### Declarations -/

/-- Parents after the word `in`, or none. -/
inductive IsParents (P : α → List Symbol → Prop) : List α → List Symbol → Prop where
  | none : IsParents P [] []
  | listed {as u} : Listed P as u → IsParents P as (.word "in" :: u)

/-- The shape of an entity type, which may follow an equals sign. -/
inductive IsShape : Option (RecordType TypeRef) → List Symbol → Prop where
  | none : IsShape none []
  | bare {fields u} : IsRecord fields u → fields.depth < TypeExpr.maxDepth →
      IsShape (some ⟨fields, ∅⟩) u
  | equals {fields u} : IsRecord fields u → fields.depth < TypeExpr.maxDepth →
      IsShape (some ⟨fields, ∅⟩) (.mark .equals :: u)

/-- The type of tags after the word `tags`, or none. -/
inductive IsTags : Option (TypeExpr TypeRef) → List Symbol → Prop where
  | none : IsTags none []
  | some {t u} : IsType t u → t.depth ≤ TypeExpr.maxDepth → IsTags (some t) (.word "tags" :: u)

/-- A reference to an action. -/
inductive IsActionRef : ActionRef → List Symbol → Prop where
  | literal (value : String) : IsActionRef ⟨none, value⟩ [.literal value]
  | identifier (id : Identifier) : IsActionRef ⟨none, id.text⟩ [.word id.text]
  | typed {n u} (value : String) : IsPath n u →
      IsActionRef ⟨some n, value⟩ (u ++ [.mark .doubleColon, .literal value])

/-- An entry of an `appliesTo` block. -/
inductive Entry where
  | principals (names : List Name)
  | resources (names : List Name)
  | context (type : TypeExpr TypeRef)
  deriving DecidableEq

namespace Entry

/-- The key that the entry stands under. -/
def key : Entry → Grammar.EntryKey
  | principals _ => .principal
  | resources _ => .resource
  | context _ => .context

/-- The principals, if the entry gives them. -/
def principals? : Entry → Option (List Name)
  | principals names => some names
  | _ => none

/-- The resources, if the entry gives them. -/
def resources? : Entry → Option (List Name)
  | resources names => some names
  | _ => none

/-- The context, if the entry gives it. -/
def context? : Entry → Option (TypeExpr TypeRef)
  | context type => some type
  | _ => none

end Entry

/-- What entries say that an action applies to. -/
def ofEntries (entries : List Entry) : AppliesTo where
  principals := (entries.findSome? Entry.principals?).getD []
  resources := (entries.findSome? Entry.resources?).getD []
  context := entries.findSome? Entry.context?

/-- An entry under its key. -/
inductive IsEntry : Entry → List Symbol → Prop where
  | principals {names u} : Listed IsPath names u →
      IsEntry (.principals names) (.word "principal" :: .mark .colon :: u)
  | resources {names u} : Listed IsPath names u →
      IsEntry (.resources names) (.word "resource" :: .mark .colon :: u)
  | context {t u} : IsType t u → t.depth ≤ TypeExpr.maxDepth →
      IsEntry (.context t) (.word "context" :: .mark .colon :: u)

/-- What an action applies to: entries with different keys after the word `appliesTo`, or none. -/
inductive IsAppliesTo : Option AppliesTo → List Symbol → Prop where
  | none : IsAppliesTo none []
  | block {entries u} : Trailing IsEntry entries u → (entries.map Entry.key).Nodup →
      IsAppliesTo (some (ofEntries entries))
        (.word "appliesTo" :: .mark .leftBrace :: u ++ [.mark .rightBrace])

/-- The full name of a namespace block that is written in a namespace. -/
def blockName (ns : Option Name) (n : Name) : Name :=
  match ns with
  | none => n
  | some outer => outer ++ n

/-- A declaration of entity types, actions or a common type after its annotations, with what it
states. -/
inductive IsBody (ns : Option Name) (notes : Annotations) :
    List Statement → List Symbol → Prop where
  | entity {keys memberOf shape tags k m s t} : Separated .comma IsIdentifier keys k →
      IsParents IsPath memberOf m → IsShape shape s → IsTags tags t →
      IsBody ns notes (keys.map fun key ↦ .entityType ns key (.standard memberOf shape tags) notes)
        (.word "entity" :: k ++ m ++ s ++ t ++ [.mark .semicolon])
  | enum {first others u} {key : Identifier} : Separated .comma IsLiteral (first :: others) u →
      (first :: others).Nodup →
      IsBody ns notes [.entityType ns key (.enumerated first others) notes]
        (.word "entity" :: .word key.text :: .word "enum" :: .mark .leftBracket :: u ++
          [.mark .rightBracket, .mark .semicolon])
  | action {keys memberOf block k m a} : Separated .comma IsKey keys k →
      IsParents IsActionRef memberOf m → IsAppliesTo block a →
      IsBody ns notes (keys.map fun key ↦ .action ns key ⟨memberOf, block⟩ notes)
        (.word "action" :: k ++ m ++ a ++ [.mark .semicolon])
  | commonType {t u} {key : Identifier} : IsType t u → t.depth ≤ TypeExpr.maxDepth →
      IsBody ns notes [.commonType ns key t notes]
        (.word "type" :: .word key.text :: .mark .equals :: u ++ [.mark .semicolon])

mutual

/-- A declaration or a namespace block in a namespace, with what it states. -/
inductive IsDeclaration : Option Name → List Statement → List Symbol → Prop where
  | block {ns n notes ss u v w} : IsNotes notes u → IsPath n v →
      IsDeclarations (some (blockName ns n)) ss w →
      IsDeclaration ns (.block (blockName ns n) notes :: ss)
        (u ++ .word "namespace" :: v ++ .mark .leftBrace :: w ++ [.mark .rightBrace])
  | body {ns notes ss u v} : IsNotes notes u → IsBody ns notes ss v → IsDeclaration ns ss (u ++ v)

/-- Declarations in a namespace with what they state. -/
inductive IsDeclarations : Option Name → List Statement → List Symbol → Prop where
  | none {ns} : IsDeclarations ns [] []
  | more {ns ss rest u v} : IsDeclaration ns ss u → IsDeclarations ns rest v →
      IsDeclarations ns (ss ++ rest) (u ++ v)

end

/-- Declarations may follow declarations. -/
theorem IsDeclarations.append {ns : Option Name} {ss rest : List Statement} {u v : List Symbol} :
    IsDeclarations ns ss u → IsDeclarations ns rest v → IsDeclarations ns (ss ++ rest) (u ++ v)
  | .none, h => h
  | .more hd hs, h => by
    simpa [List.append_assoc] using IsDeclarations.more hd (hs.append h)

end Syntax

end PolicySchema.Text

namespace PolicySchema

namespace Schema

/-- The annotations of a namespace, empty if it is missing. -/
def annotations (s : Schema) (ns : Option Name) : Annotations :=
  ((s.namespace? ns).map Namespace.annotations).getD ∅

/-- The common type that a namespace declares under a name. -/
def commonType? (s : Schema) (ns : Option Name) (key : Identifier) :
    Option (Declaration (TypeExpr TypeRef)) :=
  (s.namespace? ns).bind fun d ↦ d.commonTypes.find? key

/-- The entity type that a namespace declares under a name. -/
def entityType? (s : Schema) (ns : Option Name) (key : Identifier) :
    Option (Declaration EntityType) :=
  (s.namespace? ns).bind fun d ↦ d.entityTypes.find? key

/-- The action that a namespace declares under a name. -/
def action? (s : Schema) (ns : Option Name) (key : String) : Option (Declaration Action) :=
  (s.namespace? ns).bind fun d ↦ d.actions.find? key

end Schema

/-- A schema declares just what statements say: it has the namespaces that they are about, with the
annotations of their blocks, and in each the declarations stated for it. -/
structure Schema.Holds (s : Schema) (statements : List Text.Statement) : Prop where
  namespaces : ∀ ns, (s.namespace? ns).isSome = true ↔ ∃ t ∈ statements, t.about = ns
  annotated : ∀ n notes, .block n notes ∈ statements → s.annotations (some n) = notes
  unannotated : ∀ ns, (∀ n notes, .block n notes ∈ statements → ns ≠ some n) →
    s.annotations ns = ∅
  commonTypes : ∀ ns key body notes,
    (∃ place, s.commonType? ns key = some ⟨body, notes, place⟩) ↔
      .commonType ns key body notes ∈ statements
  entityTypes : ∀ ns key body notes,
    (∃ place, s.entityType? ns key = some ⟨body, notes, place⟩) ↔
      .entityType ns key body notes ∈ statements
  actions : ∀ ns key body notes,
    (∃ place, s.action? ns key = some ⟨body, notes, place⟩) ↔
      .action ns key body notes ∈ statements

end PolicySchema
