import PolicySchema.Literal
import PolicySchema.Schema
import PolicySchema.Fault
import PolicySchema.Text.Token

/-!
# Writing the text form

A schema is written as pieces, which are words, literals and marks with blanks between them. The
form is canonical: declarations are sorted, every attribute has a line of its own with a comma
after it, and lists stand in brackets. What the text form cannot hold is refused (`write`), while
`render` writes the pieces of any schema.
-/

namespace PolicySchema.Text

/-- A part of a written text. -/
inductive Piece where
  | blank (text : String)
  | word (text : String)
  /-- The literal for a value. -/
  | literal (value : String)
  | mark (m : Mark)
  deriving DecidableEq, Repr

/-- The written form of a piece. -/
def Piece.text : Piece → String
  | blank text => text
  | word text => text
  | literal value => Literal.quote value
  | mark m => m.text

/-- The written form of pieces in order. -/
def textOf (pieces : List Piece) : String := String.join (pieces.map Piece.text)

namespace Writing

/-- The number of spaces by which what stands inside braces is moved in. -/
def indentStep : Nat := 2

/-- A line ends. -/
def newline : Piece := .blank "\n"

/-- One space. -/
def space : Piece := .blank " "

/-- The spaces at the start of a line. -/
def indentation (indent : Nat) : Piece := .blank (String.ofList (List.replicate indent ' '))

/-- The components of a name with `::` between them. -/
def nameParts (n : Name) : List Piece :=
  (n.components.map fun id ↦ Piece.word id.text).intersperse (.mark .doubleColon)

/-- A key, bare if it may be. -/
def key (k : String) : Piece := if isBare k then .word k else .literal k

/-- Items in brackets with commas between them. -/
def listParts (items : List (List Piece)) : List Piece :=
  .mark .leftBracket :: (items.intersperse [.mark .comma, space]).flatten ++ [.mark .rightBracket]

/-- One annotation on a line of its own. An empty text is left out. -/
def annotationParts (indent : Nat) (key : Identifier) (value : String) : List Piece :=
  [indentation indent, .mark .at, .word key.text] ++
    (if value.isEmpty then [] else [.mark .leftParen, .literal value, .mark .rightParen]) ++
    [newline]

/-- Annotations, each on a line of its own. -/
def annotationsParts (indent : Nat) (notes : Annotations) : List Piece :=
  notes.entries.flatMap fun (key, value) ↦ annotationParts indent key value

/-- The written form of a reference in a type. -/
def refParts : TypeRef → List Piece
  | .primitive p => [.word p.text]
  | .entity n | .common n | .entityOrCommon n => nameParts n
  | .extension id => [.word Name.builtinNamespace.text, .mark .doubleColon, .word id.text]

mutual

/-- A type that stands on a line with the given indentation. -/
def typeParts (indent : Nat) : TypeExpr TypeRef → List Piece
  | .leaf r => refParts r
  | .set element =>
    [.word "Set", .mark .leftAngle] ++ typeParts indent element ++ [.mark .rightAngle]
  | .record .nil _ => [.mark .leftBrace, .mark .rightBrace]
  | .record fields _ =>
    [.mark .leftBrace, newline] ++ fieldsParts (indent + indentStep) fields ++
      [indentation indent, .mark .rightBrace]

/-- Attributes, each on a line of its own after its annotations. -/
def fieldsParts (indent : Nat) : Fields TypeRef → List Piece
  | .nil => []
  | .cons k type required notes rest =>
    annotationsParts indent notes ++ [indentation indent, key k] ++
      (if required then [] else [.mark .question]) ++ [.mark .colon, space] ++
      typeParts indent type ++ [.mark .comma, newline] ++ fieldsParts indent rest

end

/-- What follows the name of an entity type. -/
def entityParts (indent : Nat) : EntityType → List Piece
  | .enumerated first others =>
    [space, .word "enum", space] ++ listParts ((first :: others).map fun v ↦ [.literal v])
  | .standard memberOf shape tags =>
    (if memberOf.isEmpty then []
      else [space, .word "in", space] ++ listParts (memberOf.map nameParts)) ++
    (match shape with
      | none => []
      | some r => space :: typeParts indent r.toType) ++
    (match tags with
      | none => []
      | some t => [space, .word "tags", space] ++ typeParts indent t)

/-- A reference to an action. -/
def actionRefParts (r : ActionRef) : List Piece :=
  match r.type with
  | none => [key r.id]
  | some n => nameParts n ++ [.mark .doubleColon, .literal r.id]

/-- One entry of an `appliesTo` block on a line of its own. -/
def entryParts (indent : Nat) (word : String) (value : List Piece) : List Piece :=
  [indentation indent, .word word, .mark .colon, space] ++ value ++ [.mark .comma, newline]

/-- A list of entity types as an entry, which is left out if it is empty. -/
def namesEntryParts (indent : Nat) (word : String) (names : List Name) : List Piece :=
  if names.isEmpty then [] else entryParts indent word (listParts (names.map nameParts))

/-- The block of an action, after its word. -/
def appliesToParts (indent : Nat) (a : AppliesTo) : List Piece :=
  if a.principals.isEmpty && a.resources.isEmpty && a.context.isNone then
    [.mark .leftBrace, .mark .rightBrace]
  else
    let inner := indent + indentStep
    [.mark .leftBrace, newline] ++
      namesEntryParts inner "principal" a.principals ++
      namesEntryParts inner "resource" a.resources ++
      (match a.context with
        | none => []
        | some t => entryParts inner "context" (typeParts inner t)) ++
      [indentation indent, .mark .rightBrace]

/-- What follows the name of an action. -/
def actionParts (indent : Nat) (a : Action) : List Piece :=
  (if a.memberOf.isEmpty then []
    else [space, .word "in", space] ++ listParts (a.memberOf.map actionRefParts)) ++
  (match a.appliesTo with
    | none => []
    | some block => [space, .word "appliesTo", space] ++ appliesToParts indent block)

/-- A declaration after its annotations: the word, the name, the body and a semicolon. -/
def declarationParts (indent : Nat) (notes : Annotations) (word : String) (name : Piece)
    (body : List Piece) : List Piece :=
  annotationsParts indent notes ++ [indentation indent, .word word, space, name] ++ body ++
    [.mark .semicolon, newline]

/-- The declarations of a namespace: common types, entity types, actions. -/
def namespaceDeclarations (indent : Nat) (ns : Namespace) : List (List Piece) :=
  (ns.commonTypes.entries.map fun (id, d) ↦
    declarationParts indent d.annotations "type" (.word id.text)
      ([space, .mark .equals, space] ++ typeParts indent d.body)) ++
  (ns.entityTypes.entries.map fun (id, d) ↦
    declarationParts indent d.annotations "entity" (.word id.text) (entityParts indent d.body)) ++
  (ns.actions.entries.map fun (id, d) ↦
    declarationParts indent d.annotations "action" (key id) (actionParts indent d.body))

/-- Blocks with an empty line between them. -/
def separated (blocks : List (List Piece)) : List Piece :=
  (blocks.intersperse [newline]).flatten

/-- A namespace. The anonymous one has no block around its declarations. -/
def namespaceParts : Option Name → Namespace → List Piece
  | none, ns => separated (namespaceDeclarations 0 ns)
  | some n, ns =>
    annotationsParts 0 ns.annotations ++ [.word "namespace", space] ++ nameParts n ++
      [space, .mark .leftBrace, newline] ++ separated (namespaceDeclarations indentStep ns) ++
      [.mark .rightBrace, newline]

/-- A schema. The anonymous namespace is left out if it declares nothing. -/
def schemaParts (s : Schema) : List Piece :=
  separated <| (s.namespaces.entries.filter fun (name, ns) ↦
    name.isSome || ns.hasDeclarations).map fun (name, ns) ↦ namespaceParts name ns

end Writing

/-- The written form of a type that stands at the start of a line. -/
def renderType (t : TypeExpr TypeRef) : String := textOf (Writing.typeParts 0 t)

/-- The written form of a schema, whatever it holds. -/
def render (s : Schema) : String := textOf (Writing.schemaParts s)

/-- Why a schema has no text form. -/
inductive WriteError where
  /-- The anonymous namespace has no block to annotate. -/
  | anonymousAnnotations
  /-- A record has annotations of its own. -/
  | recordAnnotations (declaration : String)
  | tooDeep (declaration : String)
  deriving DecidableEq, Repr

namespace WriteError

/-- The message for a schema that has no text form. -/
def message : WriteError → String
  | anonymousAnnotations =>
    "annotations on the anonymous namespace cannot be written in the Cedar schema syntax"
  | recordAnnotations declaration =>
    "annotations on a record type in `" ++ declaration ++
      "` cannot be written in the Cedar schema syntax"
  | tooDeep declaration =>
    "types in `" ++ declaration ++ "` are nested more than " ++ toString TypeExpr.maxDepth ++
      " deep"

/-- The kind of fault. -/
def fault : WriteError → Fault
  | anonymousAnnotations | recordAnnotations _ => .unsupported
  | tooDeep _ => .tooDeep

/-- The advice given with the message. -/
def advice? : WriteError → Option String
  | anonymousAnnotations =>
    some "move the declarations into a named namespace, or use the JSON syntax"
  | recordAnnotations _ =>
    some "annotate the attributes or the declaration instead, or use the JSON syntax"
  | tooDeep _ => none

end WriteError

mutual

/-- Checks a type of a declaration inside the given number of sets and records. -/
def vetType (declaration : String) : Nat → TypeExpr TypeRef → Except WriteError Unit
  | _, .leaf _ => .ok ()
  | depth, .set element =>
    if TypeExpr.maxDepth < depth + 1 then .error (.tooDeep declaration)
    else vetType declaration (depth + 1) element
  | depth, .record fields notes =>
    if TypeExpr.maxDepth < depth + 1 then .error (.tooDeep declaration)
    else if !notes.isEmpty then .error (.recordAnnotations declaration)
    else vetFields declaration (depth + 1) fields

/-- Checks the types of attributes in order. -/
def vetFields (declaration : String) : Nat → Fields TypeRef → Except WriteError Unit
  | _, .nil => .ok ()
  | depth, .cons _ type _ _ rest =>
    match vetType declaration depth type with
    | .error e => .error e
    | .ok () => vetFields declaration depth rest

end

/-- The types written in an entity type, in the order in which they are checked. -/
def entityTypeExprs : EntityType → List (TypeExpr TypeRef)
  | .enumerated .. => []
  | .standard _ shape tags => (shape.map RecordType.toType).toList ++ tags.toList

/-- The types written in an action. -/
def actionTypeExprs (a : Action) : List (TypeExpr TypeRef) :=
  (a.appliesTo.bind AppliesTo.context).toList

/-- The types written in a namespace, each with the text that names its declaration. -/
def namespaceTypeExprs (name : Option Name) (ns : Namespace) : List (String × TypeExpr TypeRef) :=
  let outer := (name.map fun n ↦ n.text ++ "::").getD ""
  (ns.commonTypes.entries.map fun (id, d) ↦ (outer ++ id.text, d.body)) ++
  (ns.entityTypes.entries.flatMap fun (id, d) ↦
    (entityTypeExprs d.body).map fun t ↦ (outer ++ id.text, t)) ++
  (ns.actions.entries.flatMap fun (id, d) ↦
    (actionTypeExprs d.body).map fun t ↦ (outer ++ "Action::" ++ Literal.quote id, t))

/-- Checks that the text form can hold a namespace. -/
def vetNamespace (name : Option Name) (ns : Namespace) : Except WriteError Unit :=
  if name.isNone && !ns.annotations.isEmpty then .error .anonymousAnnotations
  else (namespaceTypeExprs name ns).forM fun (declaration, t) ↦ vetType declaration 0 t

/-- Checks that the text form can hold a schema. -/
def vetSchema (s : Schema) : Except WriteError Unit :=
  s.namespaces.entries.forM fun (name, ns) ↦ vetNamespace name ns

/-- The text form of a schema, if it has one. -/
def write (s : Schema) : Except WriteError String :=
  (vetSchema s).map fun () ↦ render s

end PolicySchema.Text
