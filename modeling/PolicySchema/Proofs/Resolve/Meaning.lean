import Mathlib.Logic.Relation
import PolicySchema.Proofs.References
import PolicySchema.Resolve.Index
import PolicySchema.Resolved

/-!
# What references mean

The meaning of a reference is stated here on its own, over the list of all declarations: what it
denotes where it is written (`Denotes`), and what a type becomes when every reference is replaced by
what it denotes (`Unfolds`). A reference to a common type is replaced by the body of that type, read
in the namespace that declares it.
-/

namespace PolicySchema.Resolve

/-! ### Declarations -/

/-- A declaration under its full name. -/
inductive Declared where
  | commonType (name : Name) (d : Placed (TypeExpr TypeRef))
  | entityType (name : Name) (d : Placed EntityType)
  | action (uid : Uid) (d : Placed Action)
  deriving DecidableEq

/-- What is declared, as a common type, an entity type or an action. -/
def Declared.key : Declared → Name ⊕ Name ⊕ Uid
  | commonType n _ => .inl n
  | entityType n _ => .inr (.inl n)
  | action uid _ => .inr (.inr uid)

/-- Nothing is declared twice. -/
def DeclaredOnce (ds : List Declared) : Prop := (ds.map Declared.key).Nodup

/-- The declarations of the namespace `ns`. -/
def declaredIn (ns : Option Name) (d : Namespace) : List Declared :=
  (d.commonTypes.entries.map fun (id, t) ↦ .commonType (Name.under ns id) ⟨t, ns⟩) ++
  (d.entityTypes.entries.map fun (id, e) ↦ .entityType (Name.under ns id) ⟨e, ns⟩) ++
  (d.actions.entries.map fun (id, a) ↦ .action ⟨actionEntityType ns, id⟩ ⟨a, ns⟩)

/-- The declarations of several schemas. -/
def declared (schemas : List Schema) : List Declared :=
  schemas.flatMap fun s ↦ s.namespaces.entries.flatMap fun (ns, d) ↦ declaredIn ns d

section

variable (ds : List Declared)

/-- A common type of the name is declared. -/
def HasCommonType (n : Name) : Prop := ∃ d, .commonType n d ∈ ds

/-- An entity type of the name is declared, or an action whose entity type has the name. -/
def HasEntityType (n : Name) : Prop :=
  (∃ d, .entityType n d ∈ ds) ∨ ∃ uid d, .action uid d ∈ ds ∧ uid.type = n

/-! ### References -/

/-- The entity type that a name means where an entity type is written in the namespace `ns`. -/
inductive MeansEntityType (ns : Option Name) (n : Name) : Name → Prop where
  | qualified : n.isBare = false → MeansEntityType ns n n
  | anonymous : n.isBare = true → HasEntityType ds n → MeansEntityType ns n n
  | within : n.isBare = true → ¬HasEntityType ds n →
      MeansEntityType ns n (Name.under ns n.basename)

/-- The common type that a bare name means in the namespace `ns`. -/
inductive MeansCommonType (ns : Option Name) (id : Identifier) : Name → Prop where
  | within : HasCommonType ds (Name.under ns id) → MeansCommonType ns id (Name.under ns id)
  | anonymous : ¬HasCommonType ds (Name.under ns id) → HasCommonType ds (Name.bare id) →
      MeansCommonType ns id (Name.bare id)

/-- Neither the namespace `ns` nor the anonymous namespace declares the common type. -/
def NoCommonType (ns : Option Name) (id : Identifier) : Prop :=
  ¬HasCommonType ds (Name.under ns id) ∧ ¬HasCommonType ds (Name.bare id)

/-- What a reference may denote. -/
inductive Referent where
  | atom (a : Atom)
  /-- The common type of a full name. -/
  | common (n : Name)
  deriving DecidableEq

/-- What a reference denotes where it is written in the namespace `ns`. -/
inductive Denotes (ns : Option Name) : TypeRef → Referent → Prop where
  | primitive (p : Primitive) : Denotes ns (.primitive p) (.atom (.primitive p))
  | extension (id : Identifier) : Denotes ns (.extension id) (.atom (.extension id))
  | entity {n m} : MeansEntityType ds ns n m → Denotes ns (.entity n) (.atom (.entity m))
  -- A name that must be that of a common type. A primitive type of the name comes last.
  | commonQualified {n} : n.isBare = false → HasCommonType ds n →
      Denotes ns (.common n) (.common n)
  | commonBare {n m} : n.isBare = true → MeansCommonType ds ns n.basename m →
      Denotes ns (.common n) (.common m)
  | commonPrimitive {n p} : n.isBare = true → NoCommonType ds ns n.basename →
      Primitive.ofName? n.basename.text = some p → Denotes ns (.common n) (.atom (.primitive p))
  -- A name in the namespace of the built-in types.
  | builtinPrimitive {n id p} : n.builtin? = some id → Primitive.ofName? id.text = some p →
      Denotes ns (.entityOrCommon n) (.atom (.primitive p))
  | builtinExtension {n id} : n.builtin? = some id → Primitive.ofName? id.text = none →
      Denotes ns (.entityOrCommon n) (.atom (.extension id))
  -- Any other qualified name.
  | qualifiedCommon {n} : n.isBare = false → n.builtin? = none → HasCommonType ds n →
      Denotes ns (.entityOrCommon n) (.common n)
  | qualifiedEntity {n} : n.isBare = false → n.builtin? = none → ¬HasCommonType ds n →
      Denotes ns (.entityOrCommon n) (.atom (.entity n))
  -- A bare name, with the kinds of types in the order of their precedence.
  | barePrimitive {n p} : n.isBare = true → Primitive.ofName? n.basename.text = some p →
      Denotes ns (.entityOrCommon n) (.atom (.primitive p))
  | bareCommon {n m} : n.isBare = true → Primitive.ofName? n.basename.text = none →
      MeansCommonType ds ns n.basename m → Denotes ns (.entityOrCommon n) (.common m)
  | bareEntity {n} : n.isBare = true → Primitive.ofName? n.basename.text = none →
      NoCommonType ds ns n.basename → HasEntityType ds n →
      Denotes ns (.entityOrCommon n) (.atom (.entity n))
  | bareExtension {n} : n.isBare = true → Primitive.ofName? n.basename.text = none →
      NoCommonType ds ns n.basename → ¬HasEntityType ds n →
      isKnownExtension n.basename.text = true →
      Denotes ns (.entityOrCommon n) (.atom (.extension n.basename))
  | bareWithin {n} : n.isBare = true → Primitive.ofName? n.basename.text = none →
      NoCommonType ds ns n.basename → ¬HasEntityType ds n →
      isKnownExtension n.basename.text = false →
      Denotes ns (.entityOrCommon n) (.atom (.entity (Name.under ns n.basename)))

variable {ds} in
/-- A common type that a reference denotes is declared. -/
theorem Denotes.hasCommonType {ns : Option Name} {r : TypeRef} {n : Name}
    (h : Denotes ds ns r (.common n)) : HasCommonType ds n := by
  have declared {id : Identifier} {m : Name} (hm : MeansCommonType ds ns id m) :
      HasCommonType ds m := by
    cases hm <;> assumption
  cases h with
  | commonQualified _ hn => exact hn
  | commonBare _ hn => exact declared hn
  | qualifiedCommon _ _ hn => exact hn
  | bareCommon _ _ hn => exact declared hn

/-! ### Types -/

mutual

/-- What a type written in the namespace `ns` becomes with its references replaced. Sets and
records stay as they are, with the flags and annotations of attributes and the annotations of
records. -/
inductive Unfolds (loops : Name → Prop) : Option Name → TypeExpr TypeRef → ResolvedType → Prop where
  | atom {ns r a} : Denotes ds ns r (.atom a) → Unfolds loops ns (.leaf r) (.leaf a)
  | common {ns r n u} : Denotes ds ns r (.common n) → UnfoldsName loops n u →
      Unfolds loops ns (.leaf r) u
  | set {ns t u} : Unfolds loops ns t u → Unfolds loops ns (.set t) (.set u)
  | record {ns fields fields' notes} : UnfoldsFields loops ns fields fields' →
      Unfolds loops ns (.record fields notes) (.record fields' notes)

/-- What stands in place of a reference to a common type. This is what its body becomes, or, if the
common type is one of `loops`, the entity type of its name. -/
inductive UnfoldsName (loops : Name → Prop) : Name → ResolvedType → Prop where
  | body {n d u} : .commonType n d ∈ ds → Unfolds loops d.ns d.declaration.body u →
      UnfoldsName loops n u
  | loop {n} : loops n → HasEntityType ds n → UnfoldsName loops n (.leaf (.entity n))

/-- What the attributes of a record become. -/
inductive UnfoldsFields (loops : Name → Prop) : Option Name → Fields TypeRef → Fields Atom → Prop
    where
  | nil {ns} : UnfoldsFields loops ns .nil .nil
  | cons {ns key t u required notes rest rest'} : Unfolds loops ns t u →
      UnfoldsFields loops ns rest rest' →
      UnfoldsFields loops ns (.cons key t required notes rest) (.cons key u required notes rest')

end

/-- The type `u` is the only one that the type `t`, written in the namespace `ns`, becomes when its
references are replaced, those to common types always by what the bodies of these become. -/
def IsSubstitution (ns : Option Name) (t : TypeExpr TypeRef) (u : ResolvedType) : Prop :=
  ∀ v, Unfolds ds (fun _ ↦ False) ns t v ↔ v = u

/-! ### References between common types -/

end

/-- The body of the common type `n` holds a reference that denotes the common type `m`. -/
def RefersTo (ds : List Declared) (n m : Name) : Prop :=
  ∃ d r, .commonType n d ∈ ds ∧ r ∈ d.declaration.body.leaves ∧ Denotes ds d.ns r (.common m)

/-- The common type refers to itself, directly or through others. -/
def IsCyclic (ds : List Declared) (n : Name) : Prop := Relation.TransGen (RefersTo ds) n n

end PolicySchema.Resolve
