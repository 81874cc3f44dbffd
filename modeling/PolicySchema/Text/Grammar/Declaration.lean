import PolicySchema.Text.Grammar.Type
import PolicySchema.Text.Item

/-!
# Declarations in the text form

A declaration of entity types, actions or a common type is read as the items that it declares, one
for each name. The annotations before it have been read already.
-/

namespace PolicySchema.Text.Grammar

open Reader

/-- References to entity types. -/
def entityRefs : Reader (List Name) := oneOrBracketed do
  let (n, _) ← name
  pure n

/-- The references after the word `in`, or none without it. -/
def optionalIn {α : Type} (refs : Reader (List α)) : Reader (List α) := do
  let t ← peek
  if t.isWord "in" then
    let _ ← next
    refs
  else pure []

/-- The shape of an entity type, if there is one. -/
def optionalShape : Reader (Option (RecordType TypeRef)) := do
  if ← eat .equals then
    let shape ← recordType
    pure (some shape)
  else
    let t ← peek
    if t.kind = .mark .leftBrace then
      let shape ← recordType
      pure (some shape)
    else pure none

/-- The type after the word `tags`, if it is there. -/
def optionalTags : Reader (Option (TypeExpr TypeRef)) := do
  let t ← peek
  if t.isWord "tags" then
    let _ ← next
    let type ← typeExpr
    pure (some type)
  else pure none

/-- The values of an enumerated entity type after earlier ones, each of them new. -/
def enumValuesUpTo : Nat → List String → Reader (List String)
  | 0, earlier => pure earlier
  | n + 1, earlier => do
    if ← eat .comma then
      let t ← expect .literal
      if earlier.contains t.value then fail (.duplicate .enumValue t.value) t.span
      else enumValuesUpTo n (earlier ++ [t.value])
    else pure earlier

/-- An enumerated entity type, after the word `entity`. -/
def enumEntity (ns : Option Name) (notes : Annotations) : Reader (List Item) := do
  let (key, span) ← identifier
  let _ ← expectWord "enum"
  let _ ← expect (.mark .leftBracket)
  let first ← expect .literal
  let values ← withSteps fun n ↦ enumValuesUpTo n [first.value]
  let _ ← expect (.mark .rightBracket)
  let _ ← expect (.mark .semicolon)
  pure [.entityType ⟨ns, key, span, .enumerated first.value values.tail, notes⟩]

/-- Standard entity types with one body, after the word `entity`. -/
def standardEntities (ns : Option Name) (notes : Annotations) : Reader (List Item) := do
  let (first, others) ← commaSeparated identifier
  let memberOf ← optionalIn entityRefs
  let shape ← optionalShape
  let tags ← optionalTags
  let _ ← expect (.mark .semicolon)
  pure <| (first :: others).map fun (key, span) ↦
    .entityType ⟨ns, key, span, .standard memberOf shape tags, notes⟩

/-- The next two tokens are a word and the word `enum`. -/
def opensEnum : Reader Bool := do
  let t ← peek
  if t.kind = .word then
    let second ← peekSecond
    pure (second.isWord "enum")
  else pure false

/-- A declaration of entity types. -/
def entity (ns : Option Name) (notes : Annotations) : Reader (List Item) := do
  let _ ← expectWord "entity"
  if ← opensEnum then enumEntity ns notes else standardEntities ns notes

/-- The name of an action with its stretch. -/
def actionName : Reader (String × Span) := do
  let t ← next
  match t.kind with
  | .literal => pure (t.value, t.span)
  | .word => if t.text = reservedWord then fail .reserved t.span else pure (t.value, t.span)
  | _ => unexpected t .actionName

/-- The rest of a reference to an action after components of its type, in at most the given
number of steps. -/
def actionRefUpTo : Nat → List Identifier → Reader ActionRef
  | 0, _ => do
    let t ← next
    unexpected t .actionReference
  | n + 1, ids => do
    let _ ← expect (.mark .doubleColon)
    let t ← peek
    if t.kind = .literal then
      let t ← next
      pure ⟨Name.ofComponents? ids, t.value⟩
    else
      let (id, _) ← identifier
      let t ← peek
      if t.kind = .mark .doubleColon then actionRefUpTo n (ids ++ [id])
      else
        let t ← next
        unexpected t .actionReference

/-- A reference to an action. -/
def actionRef : Reader ActionRef := do
  let t ← peek
  if t.kind = .literal then
    let t ← next
    pure ⟨none, t.value⟩
  else
    let (first, _) ← identifier
    let t ← peek
    if t.kind = .mark .doubleColon then withSteps fun n ↦ actionRefUpTo n [first]
    else pure ⟨none, first.text⟩

/-- The entries of an `appliesTo` block that have been read. -/
structure Entries where
  principals : Option (List Name) := none
  resources : Option (List Name) := none
  context : Option (TypeExpr TypeRef) := none
  deriving DecidableEq

/-- The keys of the entries of an `appliesTo` block. -/
inductive EntryKey where
  | principal
  | resource
  | context
  deriving DecidableEq, Repr

/-- The entry key that a word is. -/
def entryKey? (word : String) : Option EntryKey :=
  if word = "principal" then some .principal
  else if word = "resource" then some .resource
  else if word = "context" then some .context
  else none

/-- There is an entry under the key. -/
def Entries.has (e : Entries) : EntryKey → Bool
  | .principal => e.principals.isSome
  | .resource => e.resources.isSome
  | .context => e.context.isSome

/-- Reads the value under a key and adds it to earlier entries. -/
def entryValue (earlier : Entries) : EntryKey → Reader Entries
  | .principal => do
    let names ← entityRefs
    pure { earlier with principals := some names }
  | .resource => do
    let names ← entityRefs
    pure { earlier with resources := some names }
  | .context => do
    let type ← typeExpr
    pure { earlier with context := some type }

/-- Entries of an `appliesTo` block in at most the given number of steps, added to earlier
ones. -/
def entriesUpTo : Nat → Entries → Reader Entries
  | 0, earlier => pure earlier
  | n + 1, earlier => do
    let t ← peek
    if t.kind = .mark .rightBrace then pure earlier
    else
      let word ← expect .word
      match entryKey? word.text with
      | none => unexpected word .appliesToEntry
      | some key =>
        if earlier.has key then fail (.duplicate .appliesToEntry word.value) word.span
        else
          let _ ← expect (.mark .colon)
          let all ← entryValue earlier key
          if ← eat .comma then entriesUpTo n all else pure all

/-- An `appliesTo` block, after its word. -/
def appliesTo : Reader AppliesTo := do
  let _ ← expect (.mark .leftBrace)
  let entries ← withSteps fun n ↦ entriesUpTo n {}
  let _ ← expect (.mark .rightBrace)
  pure ⟨entries.principals.getD [], entries.resources.getD [], entries.context⟩

/-- The block after the word `appliesTo`, if it is there. -/
def optionalAppliesTo : Reader (Option AppliesTo) := do
  let t ← peek
  if t.isWord "appliesTo" then
    let _ ← next
    let block ← appliesTo
    pure (some block)
  else pure none

/-- A declaration of actions with one body. -/
def action (ns : Option Name) (notes : Annotations) : Reader (List Item) := do
  let _ ← expectWord "action"
  let (first, others) ← commaSeparated actionName
  let memberOf ← optionalIn (oneOrBracketed actionRef)
  let applies ← optionalAppliesTo
  let _ ← expect (.mark .semicolon)
  pure <| (first :: others).map fun (key, span) ↦
    .action ⟨ns, key, span, ⟨memberOf, applies⟩, notes⟩

/-- A declaration of a common type. -/
def commonType (ns : Option Name) (notes : Annotations) : Reader (List Item) := do
  let _ ← expectWord "type"
  let (key, span) ← identifier
  let _ ← expect (.mark .equals)
  let type ← typeExpr
  let _ ← expect (.mark .semicolon)
  pure [.commonType ⟨ns, key, span, type, notes⟩]

end PolicySchema.Text.Grammar
