import PolicySchema.Proofs.Leafwise
import PolicySchema.Proofs.Resolve.Hierarchies
import PolicySchema.Proofs.Resolve.Related

/-!
# Runs in step

Steps of two runs may be related in such a way that steps put together of related steps are related
as well (`Congruence`). Where the declarations of two indices are the same but for their references
and places, and related references are resolved by related steps (`Corresponds`), so are the indices
as a whole (`relates_resolveParts`). Steps that do the same whatever bodies were walked before are
one such relation (`Alike`).
-/

namespace PolicySchema.Resolve

/-- The declarations match, in the same namespace. -/
inductive Placed.Matches {α : Type} (P : Option Location → Option Location → Prop)
    (B : Option Name → α → α → Prop) : Placed α → Placed α → Prop where
  | placed {d d' ns} : d.Matches P (B ns) d' → Matches P B ⟨d, ns⟩ ⟨d', ns⟩

/-- The origins have the same words for the declaration, in related places. -/
inductive Origin.Matches (P : Option Location → Option Location → Prop) : Origin → Origin → Prop
    where
  | origin {label location location'} : P location location' →
      Matches P ⟨label, location⟩ ⟨label, location'⟩

/-- The common type where a chain of references is too long, if that is the problem. -/
def Cause.chain? : Cause → Option Name
  | chainTooLong n => some n
  | _ => none

/-! ### Related steps -/

open Resolving

/-- A relation between steps that is kept when steps are put together. The places of problems may
differ as `P` allows. What a step reads is what is known of the common types and the number of open
sets and records. -/
structure Congruence (P : Option Location → Option Location → Prop)
    (R : ⦃α : Type⦄ → Resolving α → Resolving α → Prop) : Prop where
  nowhere : P none none
  pure : ∀ {α : Type} (a : α), R (pure a) (pure a)
  bind : ∀ {α β : Type} {x x' : Resolving α} {f f' : α → Resolving β}, R x x' →
    (∀ a, R (f a) (f' a)) → R (x >>= f) (x' >>= f')
  read : ∀ {α : Type} {f f' : State → Resolving α},
    (∀ s s', s'.common = s.common → s'.depth = s.depth → R (f s) (f' s')) →
      R (get >>= f) (get >>= f')
  report : ∀ {cause : Cause} {location location' : Option Location}, cause.chain? = none →
    P location location' → R (report cause location) (report cause location')
  withinStack : ∀ {cause : Cause} {location location' : Option Location},
    cause.fault = .tooDeep → P location location' →
      R (withinStack cause location) (withinStack cause location')
  settle : ∀ n progress, R (settle n progress) (settle n progress)
  setDepth : ∀ depth, R (setDepth depth) (setDepth depth)
  noteWalk : ∀ n, R (noteWalk n) (noteWalk n)
  closeLevel : R closeLevel closeLevel

/-- The second index holds the declarations of the first one, in related places and with related
references in their types. Related references are resolved by related steps, each with its own
extension types enabled. -/
structure CorrespondsUnder (P : Option Location → Option Location → Prop)
    (R : ⦃α : Type⦄ → Resolving α → Resolving α → Prop)
    (L : Option Name → TypeRef → TypeRef → Prop) (extensions extensions' : Extensions)
    (index index' : Index) : Prop
    extends Index.Rel (Placed.Matches P fun ns ↦ TypeExpr.Leafwise (L ns))
      (Placed.Matches P fun ns ↦ EntityType.Leafwise (L ns))
      (Placed.Matches P fun ns ↦ Action.Leafwise (L ns)) index index' where
  reference : ∀ {inner inner' : Inliner} {ns origin origin' r r'}, L ns r r' →
    origin.Matches P origin' → (∀ n, R (inner origin n) (inner' origin' n)) →
    R (resolveRef index extensions inner ns origin r)
      (resolveRef index' extensions' inner' ns origin' r')

/-- The indices correspond with the same extension types enabled. -/
abbrev Corresponds (P : Option Location → Option Location → Prop)
    (R : ⦃α : Type⦄ → Resolving α → Resolving α → Prop)
    (L : Option Name → TypeRef → TypeRef → Prop) (extensions : Extensions)
    (index index' : Index) : Prop :=
  CorrespondsUnder P R L extensions extensions index index'

/-! ### The parts of a run -/

/-- Reports the cycles of both hierarchies. -/
def reportCycles (index : Index) (entityTypes : Table Name ResolvedEntityType)
    (actions : Table Uid ResolvedAction) : Resolving Unit := do
  reportEntityCycle index (descendants entityTypes ResolvedEntityType.memberOf).2
  reportActionCycle index (descendants actions ResolvedAction.memberOf).2

/-- Resolves the entity types and actions and reports their cycles. -/
def resolveUses (index : Index) (extensions : Extensions) :
    Resolving (Table Name ResolvedEntityType × Table Uid ResolvedAction) := do
  let found ← resolveDeclarations index extensions
  reportCycles index found.1 found.2
  pure found

/-- All that a run does but for putting its result together, which also takes the namespaces of the
index. -/
def resolveParts (index : Index) (extensions : Extensions) (order : List Name) :
    Resolving (Table Name ResolvedEntityType × Table Uid ResolvedAction) := do
  resolveCommonTypes index extensions order
  resolveUses index extensions

/-- A run puts together what its parts found. -/
theorem run_resolveIndex_eq (index : Index) (extensions : Extensions) (order : List Name)
    (s : State) :
    (resolveIndex index extensions order).run s =
      (closed index ((resolveParts index extensions order).run s).1.1
        ((resolveParts index extensions order).run s).1.2,
        ((resolveParts index extensions order).run s).2) :=
  rfl

section

variable {P : Option Location → Option Location → Prop}
  {R : ⦃α : Type⦄ → Resolving α → Resolving α → Prop} {index index' : Index}
  {extensions extensions' : Extensions} {origin origin' : Origin} (hR : Congruence P R)

include hR

/-! ### Names -/

private theorem relates_reject {α : Type} {cause : Cause} {origin origin' : Origin}
    (hcause : cause.chain? = none) (hplace : P origin.location origin'.location) :
    R (reject cause origin : Resolving (Option α)) (reject cause origin') :=
  hR.bind (hR.report hcause hplace) fun _ ↦ hR.pure _

private theorem relates_withinDepth (horigin : origin.Matches P origin') (depth : Nat) :
    R (withinDepth origin depth) (withinDepth origin' depth) := by
  obtain ⟨hplace⟩ := horigin
  unfold withinDepth
  split
  · exact hR.bind (hR.report rfl hplace) fun _ ↦ hR.pure _
  · exact hR.withinStack rfl hplace

private theorem relates_openLevel (horigin : origin.Matches P origin') :
    R (openLevel origin) (openLevel origin') := by
  apply hR.read
  intro s s' _ hdepth
  rw [hdepth]
  apply hR.bind (relates_withinDepth hR horigin _)
  intro ok
  split
  · exact hR.bind (hR.setDepth _) fun _ ↦ hR.pure _
  · exact hR.pure _

section

variable (hknown : ∀ n, index'.known.contains n = index.known.contains n)
  (horigin : origin.Matches P origin')

include hknown horigin

private theorem relates_requireEntity (n : Name) :
    R (requireEntity index origin n) (requireEntity index' origin' n) := by
  obtain ⟨hplace⟩ := horigin
  unfold requireEntity
  rw [hknown]
  split
  · exact hR.pure _
  · exact relates_reject hR rfl hplace

/-- Two indexes with the same entity types judge the name of an entity type alike. -/
theorem relates_entityAtom (n : Name) :
    R (entityAtom index origin n) (entityAtom index' origin' n) :=
  hR.bind (relates_requireEntity hR hknown horigin n) fun _ ↦ hR.pure _

end

/-- An extension type is judged alike wherever it is written. -/
theorem relates_extensionAtom (horigin : origin.Matches P origin') (id : Identifier) :
    R (extensionAtom extensions origin id) (extensionAtom extensions origin' id) := by
  obtain ⟨hplace⟩ := horigin
  unfold extensionAtom
  split
  · exact relates_reject hR rfl hplace
  · split
    · exact relates_reject hR rfl hplace
    · exact hR.pure _

/-- References that lead to the same are resolved by related steps, if extension types are. -/
theorem relates_resolveRefUnder (hknown : ∀ n, index'.known.contains n = index.known.contains n)
    {inner inner' : Inliner} {ns : Option Name} {r r' : TypeRef}
    (hr : index'.target ns r' = index.target ns r) (horigin : origin.Matches P origin')
    (hextension : ∀ id,
      R (extensionAtom extensions origin id) (extensionAtom extensions' origin' id))
    (hinner : ∀ n, R (inner origin n) (inner' origin' n)) :
    R (resolveRef index extensions inner ns origin r)
      (resolveRef index' extensions' inner' ns origin' r') := by
  unfold resolveRef
  rw [hr]
  cases index.target ns r with
  | atom a => exact hR.pure _
  | common n => exact hinner n
  | entity n => exact relates_entityAtom hR hknown horigin n
  | extension id => exact hextension id
  | missingCommon n =>
    obtain ⟨hplace⟩ := horigin
    exact relates_reject hR rfl hplace

/-- References that lead to the same are resolved by related steps. -/
theorem relates_resolveRef (hknown : ∀ n, index'.known.contains n = index.known.contains n)
    {inner inner' : Inliner} {ns : Option Name} {r r' : TypeRef}
    (hr : index'.target ns r' = index.target ns r) (horigin : origin.Matches P origin')
    (hinner : ∀ n, R (inner origin n) (inner' origin' n)) :
    R (resolveRef index extensions inner ns origin r)
      (resolveRef index' extensions inner' ns origin' r') :=
  relates_resolveRefUnder hR hknown hr horigin (relates_extensionAtom hR horigin) hinner

/-- An index corresponds to itself. -/
theorem corresponds_refl (hP : ∀ location, P location location) :
    Corresponds P R (fun _ ↦ Eq) extensions index index := by
  have held {α : Type} {B : Option Name → α → α → Prop} (hB : ∀ ns body, B ns body body)
      (d : Placed α) : d.Matches P B d :=
    .placed (.declared (hB _ _) (hP _))
  refine ⟨⟨fun _ ↦ rfl, fun n ↦ ?_, fun n ↦ ?_, fun uid ↦ ?_⟩, ?_⟩
  · exact rel_refl (held fun _ ↦ TypeExpr.Leafwise.refl fun _ ↦ rfl) _
  · exact rel_refl (held fun _ ↦ EntityType.Leafwise.refl fun _ ↦ rfl) _
  · exact rel_refl (held fun _ ↦ Action.Leafwise.refl fun _ ↦ rfl) _
  · rintro inner inner' ns origin origin' r _ rfl horigin hinner
    exact relates_resolveRef hR (fun _ ↦ rfl) rfl horigin hinner

/-! ### Types -/

section

variable {leaf leaf' : TypeRef → Resolving (Option ResolvedType)} {L : TypeRef → TypeRef → Prop}

mutual

private theorem relates_resolveWith (horigin : origin.Matches P origin')
    (hleaf : ∀ r r', L r r' → R (leaf r) (leaf' r')) {t t' : TypeExpr TypeRef}
    (ht : t.Leafwise L t') :
    R (resolveWith leaf origin t) (resolveWith leaf' origin' t') := by
  match ht with
  | .leaf hr => exact hleaf _ _ hr
  | .set ht =>
    apply hR.bind (relates_openLevel hR horigin)
    rintro (_ | _)
    · exact hR.pure _
    · exact hR.bind (relates_resolveWith horigin hleaf ht) fun _ ↦
        hR.bind hR.closeLevel fun _ ↦ hR.pure _
  | .record hfields =>
    apply hR.bind (relates_openLevel hR horigin)
    rintro (_ | _)
    · exact hR.pure _
    · exact hR.bind (relates_resolveFieldsWith horigin hleaf hfields) fun _ ↦
        hR.bind hR.closeLevel fun _ ↦ hR.pure _

private theorem relates_resolveFieldsWith (horigin : origin.Matches P origin')
    (hleaf : ∀ r r', L r r' → R (leaf r) (leaf' r')) {fields fields' : Fields TypeRef}
    (hfields : fields.Leafwise L fields') :
    R (resolveFieldsWith leaf origin fields) (resolveFieldsWith leaf' origin' fields') := by
  match hfields with
  | .nil => exact hR.pure _
  | .cons ht hrest =>
    apply hR.bind (relates_resolveWith horigin hleaf ht)
    intro u
    apply hR.bind (relates_resolveFieldsWith horigin hleaf hrest)
    intro u'
    split <;> exact hR.pure _

end

end

private theorem relates_placeInside (horigin : origin.Matches P origin')
    (outcome : Option (ResolvedType × Nat)) :
    R (placeInside origin outcome) (placeInside origin' outcome) := by
  cases outcome with
  | none => exact hR.pure _
  | some found =>
    apply hR.read
    intro s s' _ hdepth
    rw [hdepth]
    apply hR.bind (relates_withinDepth hR horigin _)
    intro ok
    split <;> exact hR.pure _

/-! ### Common types -/

section

variable {L : Option Name → TypeRef → TypeRef → Prop}
  (h : CorrespondsUnder P R L extensions extensions' index index')

include h

private theorem relates_walkBody {inner inner' : Inliner} {n : Name}
    {d d' : Placed (TypeExpr TypeRef)} (hd : d.Matches P (fun ns ↦ TypeExpr.Leafwise (L ns)) d')
    (hinner : ∀ {origin origin'}, origin.Matches P origin' → ∀ m,
      R (inner origin m) (inner' origin' m)) :
    R (walkBody index extensions inner n d) (walkBody index' extensions' inner' n d') := by
  obtain ⟨⟨hbody, hplace⟩⟩ := hd
  apply hR.bind (hR.settle _ _)
  intro _
  refine hR.bind ?_ fun _ ↦ hR.bind (hR.settle _ _) fun _ ↦ hR.pure _
  apply hR.bind (hR.withinStack rfl hplace)
  intro ok
  split
  · apply hR.bind (hR.noteWalk _)
    intro _
    apply hR.read
    intro s s' _ hdepth
    rw [hdepth]
    apply hR.bind (hR.setDepth _)
    intro _
    have horigin : (commonOrigin n _).Matches P (commonOrigin n _) := .origin hplace
    apply hR.bind (relates_resolveWith hR horigin
      (fun r r' hr ↦ h.reference hr horigin (hinner horigin)) hbody)
    intro u
    exact hR.bind (hR.setDepth _) fun _ ↦ hR.pure _
  · exact hR.pure _

private theorem relates_inlineUpTo_of_walkBody {steps : Nat} {n : Name}
    (horigin : origin.Matches P origin')
    (hwalk : ∀ rest d d', steps = rest + 1 →
      d.Matches P (fun ns ↦ TypeExpr.Leafwise (L ns)) d' →
        R (walkBody index extensions (inlineUpTo index extensions rest) n d)
          (walkBody index' extensions' (inlineUpTo index' extensions' rest) n d')) :
    R (inlineUpTo index extensions steps origin n) (inlineUpTo index' extensions' steps origin' n)
    := by
  unfold inlineUpTo
  apply hR.read
  intro s s' hcommon _
  rw [hcommon]
  split
  · exact hR.pure _
  · exact relates_entityAtom hR h.known horigin n
  · exact relates_placeInside hR horigin _
  · have hrel := h.commonType n
    generalize index.commonTypes.find? n = found, index'.commonTypes.find? n = found' at hrel
    cases steps with
    | zero => cases hrel <;> exact hR.pure _
    | succ rest =>
      cases hrel with
      | none => exact hR.pure _
      | some hd => exact hR.bind (hwalk rest _ _ rfl hd) (relates_placeInside hR horigin)

private theorem relates_inlineUpTo (horigin : origin.Matches P origin') (steps : Nat) (n : Name) :
    R (inlineUpTo index extensions steps origin n) (inlineUpTo index' extensions' steps origin' n)
    := by
  -- Bodies are walked inside one another at most `steps` times.
  induction steps generalizing origin origin' n with
  | zero => exact relates_inlineUpTo_of_walkBody hR h horigin nofun
  | succ steps ih =>
    apply relates_inlineUpTo_of_walkBody hR h horigin
    rintro rest d d' ⟨⟩ hd
    exact relates_walkBody hR h hd fun horigin m ↦ ih horigin m

private theorem relates_inline (horigin : origin.Matches P origin') (n : Name) :
    R (inline index extensions origin n) (inline index' extensions' origin' n) := by
  have hsize : index'.commonTypes.size = index.commonTypes.size := by
    simpa [Table.keys, Table.size] using congrArg List.length (keys_eq_of_rel h.commonType)
  unfold inline
  rw [hsize]
  exact relates_inlineUpTo hR h horigin _ n

private theorem relates_resolveType {ns : Option Name} {t t' : TypeExpr TypeRef}
    (horigin : origin.Matches P origin') (ht : t.Leafwise (L ns) t') :
    R (resolveType index extensions ns origin t) (resolveType index' extensions' ns origin' t') :=
  relates_resolveWith hR horigin
    (fun _ _ hr ↦ h.reference hr horigin (relates_inline hR h horigin)) ht

private theorem relates_resolveCommonTypes (names : List Name) :
    R (resolveCommonTypes index extensions names)
      (resolveCommonTypes index' extensions' names) := by
  induction names with
  | nil => exact hR.pure _
  | cons n rest ih => exact hR.bind (relates_inline hR h (.origin hR.nowhere) n) fun _ ↦ ih

/-! ### Entity types and actions -/

private theorem relates_resolveOptionalType {ns : Option Name} {t t' : Option (TypeExpr TypeRef)}
    (horigin : origin.Matches P origin') (ht : Option.Rel (TypeExpr.Leafwise (L ns)) t t') :
    R (resolveOptionalType index extensions ns origin t)
      (resolveOptionalType index' extensions' ns origin' t') := by
  cases ht with
  | none => exact hR.pure _
  | some ht => exact relates_resolveType hR h horigin ht

omit hR in
private theorem entityName_eq (ns : Option Name) (n : Name) :
    index'.entityName ns n = index.entityName ns n := by
  rw [Index.entityName, Index.entityName, h.known]

private theorem relates_resolveParents (name : Name) {ns : Option Name}
    {location location' : Option Location} (hplace : P location location') (parents : List Name) :
    R (resolveParents index name ns location parents)
      (resolveParents index' name ns location' parents) := by
  induction parents with
  | nil => exact hR.pure _
  | cons n rest ih =>
    unfold resolveParents
    dsimp only
    rw [entityName_eq h, h.known]
    split
    · exact hR.bind ih fun _ ↦ hR.pure _
    · exact hR.bind (hR.report rfl hplace) fun _ ↦ ih

private theorem relates_resolveEntityType (n : Name) {d d' : Placed EntityType}
    (hd : d.Matches P (fun ns ↦ EntityType.Leafwise (L ns)) d') :
    R (resolveEntityType index extensions n d) (resolveEntityType index' extensions' n d') := by
  obtain ⟨⟨hbody, hplace⟩⟩ := hd
  cases hbody with
  | standard hshape htags =>
    apply hR.bind (relates_resolveParents hR h n hplace _)
    intro parents
    apply hR.bind (relates_resolveOptionalType hR h (.origin hplace) hshape)
    intro shape
    apply hR.bind (relates_resolveOptionalType hR h (.origin hplace) htags)
    intro tags
    exact hR.pure _
  | enumerated => exact hR.pure _

private theorem relates_resolveActionParents (uid : Uid) {ns : Option Name}
    {location location' : Option Location} (hplace : P location location')
    (parents : List ActionRef) :
    R (resolveActionParents index uid ns location parents)
      (resolveActionParents index' uid ns location' parents) := by
  have hcontains (u : Uid) : index'.actions.contains u = index.actions.contains u :=
    (isSome_eq_of_rel (h.action u)).symm
  induction parents with
  | nil => exact hR.pure _
  | cons r rest ih =>
    unfold resolveActionParents
    dsimp only
    rw [hcontains]
    split
    · exact hR.bind ih fun _ ↦ hR.pure _
    · exact hR.bind (hR.report rfl hplace) fun _ ↦ ih

private theorem relates_resolveNames {ns : Option Name} (horigin : origin.Matches P origin')
    (names : List Name) :
    R (resolveNames index ns origin names) (resolveNames index' ns origin' names) := by
  induction names with
  | nil => exact hR.pure _
  | cons n rest ih =>
    unfold resolveNames
    rw [entityName_eq h]
    exact hR.bind (relates_requireEntity hR h.known horigin _) fun _ ↦ hR.bind ih fun _ ↦ hR.pure _

private theorem relates_resolveContext (uid : Uid) {ns : Option Name}
    {context context' : Option (TypeExpr TypeRef)} (horigin : origin.Matches P origin')
    (hcontext : Option.Rel (TypeExpr.Leafwise (L ns)) context context') :
    R (resolveContext index extensions uid ns origin context)
      (resolveContext index' extensions' uid ns origin' context') := by
  obtain ⟨hplace⟩ := horigin
  apply hR.bind (relates_resolveOptionalType hR h (.origin hplace) hcontext)
  intro result
  split
  · exact hR.pure _
  · split
    · exact hR.pure _
    · exact hR.bind (hR.report rfl hplace) fun _ ↦ hR.pure _

private theorem relates_resolveAction (uid : Uid) {d d' : Placed Action}
    (hd : d.Matches P (fun ns ↦ Action.Leafwise (L ns)) d') :
    R (resolveAction index extensions uid d) (resolveAction index' extensions' uid d') := by
  obtain ⟨⟨hbody, hplace⟩⟩ := hd
  cases hbody with
  | group =>
    exact hR.bind (relates_resolveActionParents hR h uid hplace _) fun _ ↦
      hR.bind (hR.pure _) fun _ ↦ hR.pure _
  | applies hcontext =>
    apply hR.bind (relates_resolveActionParents hR h uid hplace _)
    intro parents
    refine hR.bind ?_ fun _ ↦ hR.pure _
    apply hR.bind (relates_resolveNames hR h (.origin hplace) _)
    intro principals
    apply hR.bind (relates_resolveNames hR h (.origin hplace) _)
    intro resources
    apply hR.bind (relates_resolveContext hR h uid (.origin hplace) hcontext)
    intro context
    exact hR.pure _

/-! ### Whole runs -/

omit h in
private theorem relates_resolveEntries {κ α γ : Type} {g g' : κ → α → Resolving γ}
    {B : α → α → Prop} {entries entries' : List (κ × α)}
    (hg : ∀ k {a a'}, B a a' → R (g k a) (g' k a'))
    (hentries : List.Forall₂ (fun e e' ↦ e.1 = e'.1 ∧ B e.2 e'.2) entries entries') :
    R (resolveEntries g entries) (resolveEntries g' entries') := by
  induction hentries with
  | nil => exact hR.pure _
  | @cons e e' rest rest' he _ ih =>
    obtain ⟨k, a⟩ := e
    obtain ⟨k', a'⟩ := e'
    obtain ⟨rfl, ha⟩ := he
    exact hR.bind (hg k ha) fun _ ↦ hR.bind ih fun _ ↦ hR.pure _

private theorem relates_resolveDeclarations :
    R (resolveDeclarations index extensions) (resolveDeclarations index' extensions') := by
  apply hR.bind (relates_resolveEntries hR (relates_resolveEntityType hR h)
    (forall₂_entries_of_rel h.entityType))
  intro entityTypes
  apply hR.bind (relates_resolveEntries hR (relates_resolveAction hR h)
    (forall₂_entries_of_rel h.action))
  intro actions
  exact hR.pure _

omit hR h in
private theorem place_of_matches {α : Type} {B : Option Name → α → α → Prop}
    {o o' : Option (Placed α)} (hnowhere : P none none)
    (ho : Option.Rel (Placed.Matches P B) o o') :
    P (o.bind fun d ↦ d.declaration.location) (o'.bind fun d ↦ d.declaration.location) := by
  cases ho with
  | none => exact hnowhere
  | some hd =>
    obtain ⟨⟨-, hplace⟩⟩ := hd
    exact hplace

private theorem relates_reportCycles (entityTypes : Table Name ResolvedEntityType)
    (actions : Table Uid ResolvedAction) :
    R (reportCycles index entityTypes actions) (reportCycles index' entityTypes actions) := by
  have hentity (names : List Name) :
      R (reportEntityCycle index names) (reportEntityCycle index' names) := by
    cases names with
    | nil => exact hR.pure _
    | cons n => exact hR.report rfl (place_of_matches hR.nowhere (h.entityType n))
  have haction (uids : List Uid) :
      R (reportActionCycle index uids) (reportActionCycle index' uids) := by
    cases uids with
    | nil => exact hR.pure _
    | cons uid => exact hR.report rfl (place_of_matches hR.nowhere (h.action uid))
  exact hR.bind (hentity _) fun _ ↦ haction _

/-- The second phase relates two runs over related indexes. -/
theorem relates_resolveUses :
    R (resolveUses index extensions) (resolveUses index' extensions') := by
  apply hR.bind (relates_resolveDeclarations hR h)
  intro found
  exact hR.bind (relates_reportCycles hR h found.1 found.2) fun _ ↦ hR.pure _

/-- Indices that correspond are resolved by related steps. -/
theorem relates_resolveParts (order : List Name) :
    R (resolveParts index extensions order) (resolveParts index' extensions' order) :=
  hR.bind (relates_resolveCommonTypes hR h order) fun _ ↦ relates_resolveUses hR h

end

end

/-! ### Whatever bodies were walked -/

/-- The states are the same but for the bodies that were walked. -/
structure State.Agrees (s s' : State) : Prop where
  common : s'.common = s.common
  problems : s'.problems = s.problems
  depth : s'.depth = s.depth
  checks : s'.checks = s.checks

/-- Each state agrees with itself. -/
theorem State.Agrees.refl (s : State) : s.Agrees s := ⟨rfl, rfl, rfl, rfl⟩

/-- From states that are the same but for the bodies that were walked, the steps give the same and
lead to such states again. -/
def Alike {α : Type} (x x' : Resolving α) : Prop :=
  ∀ s s', s.Agrees s' → (x'.run s').1 = (x.run s).1 ∧ (x.run s).2.Agrees (x'.run s').2

/-- No step depends on which bodies were walked. -/
theorem Alike.congruence : Congruence Eq fun _ ↦ Alike where
  nowhere := rfl
  pure _ _ _ hs := ⟨rfl, hs⟩
  bind := by
    intro α β x x' f f' hx hf s s' hs
    obtain ⟨hresult, hmiddle⟩ := hx s s' hs
    rw [run_bind, run_bind, hresult]
    exact hf _ _ _ hmiddle
  read hf s s' hs := hf s s' hs.common hs.depth s s' hs
  report := by
    rintro cause location _ - rfl s s' hs
    exact ⟨rfl, hs.common, congrArg (· ++ [(⟨cause, location⟩ : Problem)]) hs.problems, hs.depth,
      hs.checks⟩
  withinStack := by
    rintro cause location _ - rfl s s' ⟨hcommon, hproblems, hdepth, hchecks⟩
    obtain ⟨common, problems, depth, walked, checks⟩ := s
    obtain ⟨common', problems', depth', walked', checks'⟩ := s'
    cases hcommon; cases hproblems; cases hdepth; cases hchecks
    obtain _ | ⟨_ | _, checks⟩ := checks <;> exact ⟨rfl, rfl, rfl, rfl, rfl⟩
  settle n progress s s' hs :=
    ⟨rfl, congrArg (·.insert n progress) hs.common, hs.problems, hs.depth, hs.checks⟩
  setDepth _ _ _ hs := ⟨rfl, hs.common, hs.problems, rfl, hs.checks⟩
  noteWalk _ _ _ hs := ⟨rfl, hs.common, hs.problems, hs.depth, hs.checks⟩
  closeLevel _ _ hs := ⟨rfl, hs.common, hs.problems, congrArg (· - 1) hs.depth, hs.checks⟩

/-- Runs that give the same and end in states that are the same but for the bodies that were walked
have the same outcome. -/
theorem State.Agrees.outcome_eq {run run' : ResolvedSchema × State} (h : run.2.Agrees run'.2)
    (hresult : run'.1 = run.1) : outcome run' = outcome run := by
  unfold outcome
  rw [h.problems, hresult]

end PolicySchema.Resolve
