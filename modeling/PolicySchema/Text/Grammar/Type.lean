import PolicySchema.Schema
import PolicySchema.Text.Reader

/-!
# Names, annotations and types in the text form

The productions of the grammar are readers of tokens. Types are read with a bound on how many sets
and records may still open, and all repetition is bounded by the number of tokens.
-/

namespace PolicySchema.Text.Grammar

open Reader

/-- An identifier with its stretch. -/
def identifier : Reader (Identifier × Span) := do
  let t ← expect .word
  match Identifier.parse t.text with
  | .ok id => pure (id, t.span)
  | .error _ => fail .reserved t.span

/-- A name with its stretch: identifiers with `::` between them. -/
def name : Reader (Name × Span) := do
  let (first, start) ← identifier
  let more ← repeated do
    if ← eat .doubleColon then
      let id ← identifier
      pure (some id)
    else pure none
  let ids := first :: more.map Prod.fst
  let stop := (more.getLast?.map Prod.snd).getD start
  pure (⟨ids.dropLast, (more.getLast?.map Prod.fst).getD first⟩, start.through stop)

/-- A text in parentheses, or the empty text if there are none. -/
def annotationValue : Reader String := do
  if ← eat .leftParen then
    let t ← expect .literal
    let _ ← expect (.mark .rightParen)
    pure t.value
  else pure ""

/-- Annotations in at most the given number of steps, added to earlier ones. -/
def annotationsUpTo : Nat → Annotations → Reader Annotations
  | 0, earlier => pure earlier
  | n + 1, earlier => do
    if ← eat .at then
      let (key, span) ← identifier
      let value ← annotationValue
      if earlier.contains key then fail (.duplicate .annotationKey key.text) span
      else annotationsUpTo n (earlier.insert key value)
    else pure earlier

/-- Any number of annotations. -/
def annotations : Reader Annotations := withSteps fun n ↦ annotationsUpTo n ∅

/-- The key of an attribute with its stretch. -/
def attributeKey : Reader (String × Span) := do
  let t ← next
  match t.kind with
  | .word => if t.text = reservedWord then fail .reserved t.span else pure (t.value, t.span)
  | .literal => pure (t.value, t.span)
  | _ => unexpected t .attributeName

/-- Attributes in at most the given number of steps, added to earlier ones. -/
def attributesUpTo (type : Reader (TypeExpr TypeRef)) :
    Nat → Table String (Attribute TypeRef) → Reader (Table String (Attribute TypeRef))
  | 0, earlier => pure earlier
  | n + 1, earlier => do
    let t ← peek
    if t.kind = .mark .rightBrace then pure earlier
    else
      let notes ← annotations
      let (key, span) ← attributeKey
      let optional ← eat .question
      let _ ← expect (.mark .colon)
      let value ← type
      if earlier.contains key then fail (.duplicate .attribute key) span
      else
        let all := earlier.insert key ⟨value, !optional, notes⟩
        if ← eat .comma then attributesUpTo type n all else pure all

/-- A record, whose attributes have types read by `inner?`. Without it the record is too deep, and
it is so as well if the stack is exhausted. -/
def recordLevel (inner? : Option (Reader (TypeExpr TypeRef))) : Reader (RecordType TypeRef) := do
  let brace ← expect (.mark .leftBrace)
  match inner? with
  | none => fail .tooDeep brace.span
  | some inner =>
    withinStack .tooDeep brace.span
    let fields ← withSteps fun n ↦ attributesUpTo inner n ∅
    let _ ← expect (.mark .rightBrace)
    pure ⟨Fields.ofTable fields, ∅⟩

/-- A set, whose elements have types read by `inner?`. Without it the set is too deep, and it is so
as well if the stack is exhausted. -/
def setLevel (inner? : Option (Reader (TypeExpr TypeRef))) : Reader (TypeExpr TypeRef) := do
  let word ← next
  let _ ← next
  match inner? with
  | none => fail .tooDeep word.span
  | some inner =>
    withinStack .tooDeep word.span
    let element ← inner
    let _ ← expect (.mark .rightAngle)
    pure (.set element)

/-- The primitive type that a bare name of the text form means. -/
def barePrimitive? (n : Name) : Option Primitive :=
  if n.isBare then [Primitive.string, .long, .bool].find? fun p ↦ p.text = n.basename.text
  else none

/-- What a name means as a type, where it stands at a stretch. -/
def typeOfName (n : Name) (span : Span) : Except Failure TypeRef :=
  match barePrimitive? n with
  | some p => .ok (.primitive p)
  | none =>
    match n.builtin? with
    | none => .ok (.entityOrCommon n)
    | some id =>
      match Primitive.ofName? id.text with
      | some p => .ok (.primitive p)
      | none =>
        if isKnownExtension id.text then .ok (.extension id)
        else .error ⟨.unknownExtension id.text, span⟩

/-- A type given by a name. -/
def namedType : Reader (TypeExpr TypeRef) := do
  let (n, span) ← name
  match typeOfName n span with
  | .ok r => pure (.leaf r)
  | .error f => fail f.cause f.span

/-- The next two tokens open a set. -/
def opensSet : Reader Bool := do
  let t ← peek
  if t.text = "Set" then
    let second ← peekSecond
    pure (second.kind = .mark .leftAngle)
  else pure false

/-- A type, in which the types inside a set or a record are read by `inner?`. -/
def typeLevel (inner? : Option (Reader (TypeExpr TypeRef))) : Reader (TypeExpr TypeRef) := do
  let t ← peek
  match t.kind with
  | .mark .leftBrace =>
    let r ← recordLevel inner?
    pure r.toType
  | .word => if ← opensSet then setLevel inner? else namedType
  | _ =>
    let t ← next
    unexpected t .typeExpr

/-- A type in which at most the given number of sets and records enclose one another. -/
def typeUpTo : Nat → Reader (TypeExpr TypeRef)
  | 0 => typeLevel none
  | room + 1 => typeLevel (some (typeUpTo room))

/-- A type that nests no deeper than types may. -/
def typeExpr : Reader (TypeExpr TypeRef) := typeUpTo TypeExpr.maxDepth

/-- A record that nests no deeper than types may. -/
def recordType : Reader (RecordType TypeRef) :=
  recordLevel (some (typeUpTo (TypeExpr.maxDepth - 1)))

end PolicySchema.Text.Grammar
