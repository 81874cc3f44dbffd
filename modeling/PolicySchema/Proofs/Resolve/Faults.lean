import PolicySchema.Proofs.Resolve.Retained
import PolicySchema.Proofs.Resolve.Unfolding
import PolicySchema.Resolve.Inline
import PolicySchema.Text.Write

/-!
# What may be at fault in declarations

Each declaration mentions references, parents, principals, resources and a context. Whether a
mention is at fault, and which problem is to be reported for it, is stated here on its own, over the
list of all declarations (`Faulty`). A type that resolves has nothing at fault in it, nor in the
common types that it refers to (`Resolves`).
-/

namespace PolicySchema.Resolve

variable (ds : List Declared) (extensions : Extensions)

/-! ### Types that resolve -/

/-- What the atom refers to is there: a declared entity type, or a known and enabled extension
type. -/
def Found : Atom → Prop
  | .primitive _ => True
  | .entity n => HasEntityType ds n
  | .extension id => isKnownExtension id.text = true ∧ extensions.isEnabled id.text = true

/-- The type, written in the namespace `ns`, becomes the type `u` when references are replaced, and
what `u` refers to is there. -/
def Resolves (ns : Option Name) (t : TypeExpr TypeRef) (u : ResolvedType) : Prop :=
  Unfolds ds (fun _ ↦ False) ns t u ∧ ∀ a ∈ u.leaves, Found ds extensions a

/-- The attributes, written in the namespace `ns`, become those of `u` when references are replaced,
and what these refer to is there. -/
def ResolvesFields (ns : Option Name) (fields : Fields TypeRef) (u : Fields Atom) : Prop :=
  UnfoldsFields ds (fun _ ↦ False) ns fields u ∧ ∀ a ∈ u.leaves, Found ds extensions a

/-- The body of the common type resolves to the type `u` where it is declared. -/
def ResolvesName (n : Name) (u : ResolvedType) : Prop :=
  ∃ d, .commonType n d ∈ ds ∧ Resolves ds extensions d.ns d.declaration.body u

mutual

/-- With `level` sets and records around it, the type nests no deeper than is allowed, and neither
do the types that common types put in place of its references. -/
def Fits (ns : Option Name) (level : Nat) : TypeExpr TypeRef → Prop
  | .leaf r => ∀ u, Resolves ds extensions ns (.leaf r) u → level + u.depth ≤ TypeExpr.maxDepth
  | .set element => level < TypeExpr.maxDepth ∧ Fits ns (level + 1) element
  | .record fields _ => level < TypeExpr.maxDepth ∧ FieldsFit ns (level + 1) fields

/-- With `level` sets and records around them, the types of the attributes nest no deeper than is
allowed. -/
def FieldsFit (ns : Option Name) (level : Nat) : Fields TypeRef → Prop
  | .nil => True
  | .cons _ type _ _ rest => Fits ns level type ∧ FieldsFit ns level rest

end

section

variable {ds extensions} {ns : Option Name} {t : TypeExpr TypeRef} {v : ResolvedType}
  {r : TypeRef} {index : Index}

/-- A set resolves exactly to the sets of what its elements resolve to. -/
theorem resolves_set_iff : Resolves ds extensions ns (.set t) v ↔
    ∃ u, Resolves ds extensions ns t u ∧ v = .set u := by
  constructor
  · rintro ⟨hv, hfound⟩
    cases hv with
    | set hu => exact ⟨_, ⟨hu, hfound⟩, rfl⟩
  · rintro ⟨u, ⟨hu, hfound⟩, rfl⟩
    exact ⟨.set hu, hfound⟩

/-- A record resolves field by field and keeps its annotations. -/
theorem resolves_record_iff {fields : Fields TypeRef} {notes : Annotations} :
    Resolves ds extensions ns (.record fields notes) v ↔
      ∃ u, ResolvesFields ds extensions ns fields u ∧ v = .record u notes := by
  constructor
  · rintro ⟨hv, hfound⟩
    cases hv with
    | record hu => exact ⟨_, ⟨hu, hfound⟩, rfl⟩
  · rintro ⟨u, ⟨hu, hfound⟩, rfl⟩
    exact ⟨.record hu, hfound⟩

/-- No fields resolve to no fields. -/
theorem resolvesFields_nil_iff {v : Fields Atom} :
    ResolvesFields ds extensions ns .nil v ↔ v = .nil := by
  constructor
  · rintro ⟨hv, -⟩
    cases hv
    rfl
  · rintro rfl
    exact ⟨.nil, by simp [Fields.leaves]⟩

/-- Fields resolve one after the other, each keeping its key, its flag and its annotations. -/
theorem resolvesFields_cons_iff {key : String} {required : Bool} {notes : Annotations}
    {rest : Fields TypeRef} {v : Fields Atom} :
    ResolvesFields ds extensions ns (.cons key t required notes rest) v ↔
      ∃ u u', Resolves ds extensions ns t u ∧ ResolvesFields ds extensions ns rest u' ∧
        v = .cons key u required notes u' := by
  constructor
  · rintro ⟨hv, hfound⟩
    cases hv with
    | cons hu hu' =>
      obtain ⟨hfirst, hrest⟩ := List.forall_mem_append.mp hfound
      exact ⟨_, _, ⟨hu, hfirst⟩, ⟨hu', hrest⟩, rfl⟩
  · rintro ⟨u, u', ⟨hu, hfirst⟩, ⟨hu', hrest⟩, rfl⟩
    exact ⟨.cons hu hu', List.forall_mem_append.mpr ⟨hfirst, hrest⟩⟩

mutual

/-- What a type that fits resolves to is within the limit, together with what is around it. -/
theorem add_depth_le_of_fits {level : Nat} (t : TypeExpr TypeRef)
    (ht : Fits ds extensions ns level t) {v : ResolvedType} (hv : Resolves ds extensions ns t v) :
    level + v.depth ≤ TypeExpr.maxDepth := by
  match t with
  | .leaf r => exact ht v hv
  | .set element =>
    obtain ⟨u, hu, rfl⟩ := resolves_set_iff.mp hv
    have hdepth := add_depth_le_of_fits element ht.2 hu
    rw [TypeExpr.depth]
    omega
  | .record fields notes =>
    obtain ⟨u, hu, rfl⟩ := resolves_record_iff.mp hv
    have hdepth := add_depth_le_of_fieldsFit fields ht.1 ht.2 hu
    rw [TypeExpr.depth]
    omega

private theorem add_depth_le_of_fieldsFit {level : Nat} (fields : Fields TypeRef)
    (hlevel : level ≤ TypeExpr.maxDepth) (hfields : FieldsFit ds extensions ns level fields)
    {v : Fields Atom} (hv : ResolvesFields ds extensions ns fields v) :
    level + v.depth ≤ TypeExpr.maxDepth := by
  match fields with
  | .nil =>
    obtain rfl := resolvesFields_nil_iff.mp hv
    exact hlevel
  | .cons key t required notes rest =>
    obtain ⟨u, u', hu, hu', rfl⟩ := resolvesFields_cons_iff.mp hv
    have hfirst := add_depth_le_of_fits t hfields.1 hu
    have hrest := add_depth_le_of_fieldsFit rest hlevel hfields.2 hu'
    rw [Fields.depth]
    omega

end

end

/-! ### Types within a bound -/

mutual

/-- The depth of a type with types of the given depths in place of its references. -/
def depthAround (leafDepth : TypeRef → Nat) : TypeExpr TypeRef → Nat
  | .leaf r => leafDepth r
  | .set element => depthAround leafDepth element + 1
  | .record fields _ => fieldsDepthAround leafDepth fields + 1

/-- The greatest depth of the types of the attributes, with types of the given depths in place of
references. -/
def fieldsDepthAround (leafDepth : TypeRef → Nat) : Fields TypeRef → Nat
  | .nil => 0
  | .cons _ type _ _ rest => max (depthAround leafDepth type) (fieldsDepthAround leafDepth rest)

end

/-- The depth of what stands in place of a reference, if each common type keeps to its bound. -/
def Index.leafBound (index : Index) (bound : Name → Nat) (ns : Option Name) (r : TypeRef) : Nat :=
  (index.target ns r).common?.elim 0 bound

/-- The bodies of the common types keep to the bounds, if those that they refer to do. -/
def Index.Bounds (index : Index) (bound : Name → Nat) : Prop :=
  ∀ e ∈ index.commonTypes.entries,
    depthAround (index.leafBound bound e.2.ns) e.2.declaration.body ≤ bound e.1

/-- Only the bodies that the index holds have to be looked at. -/
instance (index : Index) (bound : Name → Nat) : Decidable (index.Bounds bound) :=
  inferInstanceAs (Decidable (∀ e ∈ index.commonTypes.entries, _))

section

variable {ds extensions} {index : Index} {bound : Name → Nat}

mutual

private theorem depth_le_of_unfolds (h : index.Reflects ds) (hbound : index.Bounds bound)
    {ns : Option Name} {t : TypeExpr TypeRef} {u : ResolvedType}
    (hu : Unfolds ds (fun _ ↦ False) ns t u) :
    u.depth ≤ depthAround (index.leafBound bound ns) t := by
  match hu with
  | .atom _ => exact Nat.zero_le _
  | .common hr hn =>
    have hcommon := Target.referent?_eq_common_iff.mp (h.denotes_iff.mp hr)
    rw [depthAround, Index.leafBound, hcommon]
    exact depth_le_of_unfoldsName h hbound hn
  | .set hu => exact Nat.succ_le_succ (depth_le_of_unfolds h hbound hu)
  | .record hu => exact Nat.succ_le_succ (depth_le_of_unfoldsFields h hbound hu)

private theorem depth_le_of_unfoldsName (h : index.Reflects ds) (hbound : index.Bounds bound)
    {n : Name} {u : ResolvedType} (hu : UnfoldsName ds (fun _ ↦ False) n u) :
    u.depth ≤ bound n := by
  match hu with
  | .loop hl _ => exact hl.elim
  | .body hd hu =>
    have hentry := Table.find?_eq_some_iff.mp ((h.commonType n _).mpr hd)
    exact Nat.le_trans (depth_le_of_unfolds h hbound hu) (hbound _ hentry)

private theorem depth_le_of_unfoldsFields (h : index.Reflects ds) (hbound : index.Bounds bound)
    {ns : Option Name} {fields : Fields TypeRef} {u : Fields Atom}
    (hu : UnfoldsFields ds (fun _ ↦ False) ns fields u) :
    u.depth ≤ fieldsDepthAround (index.leafBound bound ns) fields := by
  match hu with
  | .nil => exact Nat.le_refl 0
  | .cons hu hrest =>
    have hfirst := depth_le_of_unfolds h hbound hu
    have hrest := depth_le_of_unfoldsFields h hbound hrest
    rw [Fields.depth, fieldsDepthAround]
    omega

end

mutual

/-- A type fits if it does with the bounds of the common types in place of its references. -/
theorem fits_of_bound (h : index.Reflects ds) (hbound : index.Bounds bound) {ns : Option Name}
    {level : Nat} (t : TypeExpr TypeRef)
    (ht : level + depthAround (index.leafBound bound ns) t ≤ TypeExpr.maxDepth) :
    Fits ds extensions ns level t := by
  match t with
  | .leaf r =>
    intro u hu
    have hdepth := depth_le_of_unfolds h hbound hu.1
    omega
  | .set element =>
    rw [depthAround] at ht
    exact ⟨by omega, fits_of_bound h hbound element (by omega)⟩
  | .record fields notes =>
    rw [depthAround] at ht
    exact ⟨by omega, fieldsFit_of_bound h hbound fields (by omega)⟩

private theorem fieldsFit_of_bound (h : index.Reflects ds) (hbound : index.Bounds bound)
    {ns : Option Name} {level : Nat} (fields : Fields TypeRef)
    (hfields : level + fieldsDepthAround (index.leafBound bound ns) fields ≤ TypeExpr.maxDepth) :
    FieldsFit ds extensions ns level fields := by
  match fields with
  | .nil => trivial
  | .cons key t required notes rest =>
    rw [fieldsDepthAround] at hfields
    exact ⟨fits_of_bound h hbound t (by omega), fieldsFit_of_bound h hbound rest (by omega)⟩

end

end

/-! ### Mentions -/

namespace Declared

/-- The namespace that the declaration is written in. -/
def ns : Declared → Option Name
  | commonType _ d => d.ns
  | entityType _ d => d.ns
  | action _ d => d.ns

/-- The words for the declaration, with its place. -/
def origin : Declared → Origin
  | commonType n d => ⟨"common type `" ++ n.text ++ "`", d.declaration.location⟩
  | entityType n d => ⟨"entity type `" ++ n.text ++ "`", d.declaration.location⟩
  | action uid d => ⟨"action `" ++ uid.text ++ "`", d.declaration.location⟩

/-- The types that are written in the declaration. -/
def types : Declared → List (TypeExpr TypeRef)
  | commonType _ d => [d.declaration.body]
  | entityType _ d => Text.entityTypeExprs d.declaration.body
  | action _ d => Text.actionTypeExprs d.declaration.body

/-- The references in the types that are written in the declaration. -/
def references (d : Declared) : List TypeRef := d.types.flatMap TypeExpr.leaves

end Declared

/-- What is wrong with a reference that is written in the namespace `ns`, in a declaration with the
words `label`: it denotes an entity type that is not declared, no common type, or an extension type
that is unknown or not enabled. -/
inductive FaultyReference (ns : Option Name) (label : String) : TypeRef → Cause → Prop where
  | unknownEntityType {r n} : Denotes ds ns r (.atom (.entity n)) → ¬HasEntityType ds n →
      FaultyReference ns label r (.unknownEntityType n label)
  | unknownCommonType {n} : (∀ x, ¬Denotes ds ns (.common n) x) →
      FaultyReference ns label (.common n) (.unknownCommonType n label)
  | unknownExtension {r id} : Denotes ds ns r (.atom (.extension id)) →
      isKnownExtension id.text = false →
      FaultyReference ns label r (.unknownExtension id.text label)
  | disabledExtension {r id} : Denotes ds ns r (.atom (.extension id)) →
      isKnownExtension id.text = true → extensions.isEnabled id.text = false →
      FaultyReference ns label r (.disabledExtension id.text label)

end PolicySchema.Resolve
