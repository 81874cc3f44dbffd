import PolicySchema.Document.Read
import PolicySchema.Document.ToJson
import PolicySchema.Proofs.Document.Members
import PolicySchema.Proofs.Json.RoundTrip

/-!
# The JSON form of documents

The JSON form of a document is read back as the document. It has no numbers in it, and it is deep
just as the types in it are.
-/

namespace PolicySchema

open Json

/-! ### Fixed fields -/

namespace Json

variable {α : Type}

/-- What is given to a field by its value, if there is one. -/
def slotOf : Option Json → Slot
  | none => .missing
  | some value => .given value

/-- The members for fields of which some have values. -/
def fieldMembers (fields : List (String × Option Json)) : List (String × Json) :=
  fields.flatMap fun f ↦ memberOf? f.1 f.2

private theorem fieldMembers_cons (key : String) (value? : Option Json)
    (fields : List (String × Option Json)) :
    fieldMembers ((key, value?) :: fields) = memberOf? key value? ++ fieldMembers fields :=
  List.flatMap_cons

private theorem mem_keys_fieldMembers {fields : List (String × Option Json)} {key : String}
    (h : key ∈ (fieldMembers fields).map Prod.fst) : key ∈ fields.map Prod.fst := by
  induction fields with
  | nil => exact h
  | cons f fields ih =>
    obtain ⟨k, value?⟩ := f
    rw [fieldMembers_cons, List.map_append, List.mem_append] at h
    rw [List.map_cons, List.mem_cons]
    rcases h with h | h
    · cases value? with
      | none => cases h
      | some value => exact .inl (List.mem_singleton.mp h)
    · exact .inr (ih h)

private theorem nodup_keys_fieldMembers {fields : List (String × Option Json)}
    (h : (fields.map Prod.fst).Nodup) : ((fieldMembers fields).map Prod.fst).Nodup := by
  induction fields with
  | nil => exact .nil
  | cons f fields ih =>
    obtain ⟨k, value?⟩ := f
    obtain ⟨hk, hfields⟩ := List.nodup_cons.mp h
    rw [fieldMembers_cons]
    cases value? with
    | none => exact ih hfields
    | some value =>
      exact List.nodup_cons.mpr ⟨fun hmem ↦ hk (mem_keys_fieldMembers hmem), ih hfields⟩

private theorem member?_fieldMembers {fields : List (String × Option Json)}
    (h : (fields.map Prod.fst).Nodup) (key : String) :
    member? key (fieldMembers fields) = (fields.lookup key).join := by
  induction fields with
  | nil => rfl
  | cons f fields ih =>
    obtain ⟨k, value?⟩ := f
    obtain ⟨hk, hfields⟩ := List.nodup_cons.mp h
    rw [fieldMembers_cons, List.lookup_cons]
    by_cases hkey : key = k
    · subst hkey
      rw [beq_self_eq_true]
      cases value? with
      | some value => simp [memberOf?, member?]
      | none =>
        have hnone : fields.lookup key = none := by
          rw [List.lookup_eq_none_iff]
          intro f hf
          rw [bne_iff_ne]
          rintro rfl
          exact hk (List.mem_map.mpr ⟨f, hf, rfl⟩)
        rw [memberOf?, List.nil_append, ih hfields, hnone]
        rfl
    · rw [beq_false_of_ne hkey]
      cases value? with
      | none => exact ih hfields
      | some value => simpa [memberOf?, member?, hkey] using ih hfields

/-- Fixed fields of which some have values are given their values. -/
theorem slots?_fieldMembers {names : List String} {fields : List (String × Option Json)}
    (hnodup : (fields.map Prod.fst).Nodup) (hnames : ∀ key ∈ fields.map Prod.fst, key ∈ names) :
    slots? names (object (fieldMembers fields)) =
      some (names.map fun name ↦ slotOf (fields.lookup name).join) := by
  have hall : ((fieldMembers fields).map Prod.fst).all names.contains = true := by
    rw [List.all_eq_true]
    intro key hkey
    rw [List.contains_iff_mem]
    exact hnames key (mem_keys_fieldMembers hkey)
  have hdistinct := firstRepeated?_eq_none_iff.mpr
    (⟨nodup_keys_fieldMembers hnodup, by simp⟩ : _ ∧ ∀ key ∈ _, key ∉ ([] : List String))
  rw [slots?]
  simp only [hall, hdistinct, Option.isNone_none, Bool.and_self, if_true,
    member?_fieldMembers hnodup]
  refine congrArg some (List.map_congr_left fun name _ ↦ ?_)
  cases (fields.lookup name).join <;> rfl

/-- A string is read from its JSON form. -/
theorem required_string (text : String) :
    (slotOf (some (string text))).required string? = some text := rfl

/-- An optional value is read from its JSON form, which is never null. -/
theorem optional_map {read? : Json → Option α} {write : α → Json} {value? : Option α}
    (h : ∀ a ∈ value?, read? (write a) = some a ∧ write a ≠ .null) :
    (slotOf (value?.map write)).optional read? = some value? := by
  cases value? with
  | none => rfl
  | some a =>
    obtain ⟨hread, hnull⟩ := h a rfl
    have hgiven : (Slot.given (write a)).optional read? = (read? (write a)).map some := by
      rw [Slot.optional]
      exact hnull
    rw [Option.map_some, slotOf, hgiven, hread]
    rfl

/-- Members are read from their JSON form if each of their values is. -/
theorem members?_map {read? : Json → Option α} {write : α → Json} {members : Members α}
    (h : ∀ m ∈ members, read? (write m.2) = some m.2) :
    members? read? (object (members.map fun m ↦ (m.1, write m.2))) = some members := by
  rw [members?]
  induction members with
  | nil => rfl
  | cons m members ih =>
    have hm := h m List.mem_cons_self
    have hrest := ih fun n hn ↦ h n (List.mem_cons_of_mem _ hn)
    simp only [List.map_cons, List.mapM_cons, hm, hrest]
    rfl

/-- A list is read from its JSON form if each of its items is. -/
theorem list?_map {read? : Json → Option α} {write : α → Json} {items : List α}
    (h : ∀ a ∈ items, read? (write a) = some a) :
    list? read? (array (items.map write)) = some items := by
  rw [list?]
  induction items with
  | nil => rfl
  | cons a items ih =>
    have ha := h a List.mem_cons_self
    have hrest := ih fun b hb ↦ h b (List.mem_cons_of_mem _ hb)
    simp only [List.map_cons, List.mapM_cons, ha, hrest]
    rfl

/-- Members that are left out if there are none. -/
def nonemptyMembers (members : Members α) (write : α → Json) : Option Json :=
  if members.isEmpty then none else some (object (members.map fun m ↦ (m.1, write m.2)))

/-- Members that are left out if there are none are read back. -/
theorem orEmpty_nonemptyMembers {read? : Json → Option α} {write : α → Json}
    {members : Members α} (h : ∀ m ∈ members, read? (write m.2) = some m.2) :
    (slotOf (nonemptyMembers members write)).orEmpty (members? read?) = some members := by
  cases members with
  | nil => rfl
  | cons m members => exact members?_map h

private theorem annotationsMember_eq (annotations : Members String) :
    annotationsMember annotations =
      memberOf? "annotations" (nonemptyMembers annotations string) := by
  cases annotations <;> rfl

private theorem list?_strings (texts : List String) :
    list? string? (strings texts) = some texts := list?_map fun _ _ ↦ rfl

end Json

/-! ### Type objects -/

private theorem typeMembers_eq (members : List (String × TypeObject)) :
    typeMembers members = members.map fun m ↦ (m.1, m.2.toJson) := by
  induction members with
  | nil => rfl
  | cons m members ih => rw [typeMembers, ih, List.map_cons]

private def typeFields (o : TypeObject) : List (String × Option Json) :=
  [("annotations", nonemptyMembers o.annotations string),
    ("attributes", o.attributes.map fun members ↦ object (typeMembers members)),
    ("element", o.element.map TypeObject.toJson), ("name", o.name.map string),
    ("required", o.required.map bool), ("type", some (string o.type))]

private theorem toJson_typeObject (o : TypeObject) :
    o.toJson = object (fieldMembers (typeFields o)) := by
  obtain ⟨type, element, attributes, name, required, annotations⟩ := o
  have hattributes : attributesMember attributes =
      memberOf? "attributes" (attributes.map fun members ↦ object (typeMembers members)) := by
    cases attributes <;> rfl
  cases element <;>
    simp [TypeObject.toJson, typeFields, fieldMembers, annotationsMember_eq, hattributes,
      memberOf?]

private theorem slots?_typeObject (o : TypeObject) :
    slots? ["type", "element", "attributes", "name", "required", "annotations"] o.toJson =
      some [slotOf (some (string o.type)), slotOf (o.element.map TypeObject.toJson),
        slotOf (o.attributes.map fun members ↦ object (typeMembers members)),
        slotOf (o.name.map string), slotOf (o.required.map bool),
        slotOf (nonemptyMembers o.annotations string)] := by
  rw [toJson_typeObject, slots?_fieldMembers (by simp [typeFields]) (by simp [typeFields])]
  simp [typeFields, List.lookup_cons]

private theorem toJson_ne_null (o : TypeObject) : o.toJson ≠ .null := by
  rw [toJson_typeObject]
  exact Json.noConfusion

private theorem depth_member_lt {members : List (String × Json)} {m : String × Json}
    (h : m ∈ members) : m.2.depth < (object members).depth := by
  have hle := depthMembers_le_iff.mp (Nat.le_refl (depthMembers members)) m h
  rw [depth]
  omega

private theorem mem_fieldMembers {fields : List (String × Option Json)} {key : String}
    {value : Json} (h : (key, some value) ∈ fields) : (key, value) ∈ fieldMembers fields :=
  List.mem_flatMap.mpr ⟨_, h, List.mem_singleton_self _⟩

private theorem ofJsonUpTo?_toJson (n : Nat) : ∀ o : TypeObject, o.toJson.depth ≤ n →
    TypeObject.ofJsonUpTo? n o.toJson = some o := by
  induction n with
  | zero =>
    intro o h
    rw [toJson_typeObject, depth] at h
    omega
  | succ n ih =>
    intro o h
    have hpart (key : String) {value : Json} (hmem : (key, some value) ∈ typeFields o) :
        value.depth ≤ n := by
      have hlt := depth_member_lt (mem_fieldMembers hmem)
      rw [← toJson_typeObject] at hlt
      exact Nat.le_of_lt_succ (Nat.lt_of_lt_of_le hlt h)
    have helement : (slotOf (o.element.map TypeObject.toJson)).optional
        (TypeObject.ofJsonUpTo? n) = some o.element := by
      refine optional_map fun e he ↦ ⟨ih e (hpart "element" ?_), toJson_ne_null e⟩
      rw [Option.mem_def] at he
      simp [typeFields, he]
    have hattributes : (slotOf (o.attributes.map fun members ↦
        object (typeMembers members))).optional (members? (TypeObject.ofJsonUpTo? n)) =
          some o.attributes := by
      refine optional_map fun members hm ↦ ⟨?_, Json.noConfusion⟩
      rw [typeMembers_eq]
      refine members?_map fun m hmem ↦ ih m.2 ?_
      have hobject : (object (typeMembers members)).depth ≤ n := by
        apply hpart "attributes"
        rw [Option.mem_def] at hm
        simp [typeFields, hm]
      rw [typeMembers_eq] at hobject
      have hlt := depth_member_lt (List.mem_map_of_mem
        (f := fun m : String × TypeObject ↦ (m.1, m.2.toJson)) hmem)
      exact Nat.le_of_lt (Nat.lt_of_lt_of_le hlt hobject)
    have hname : (slotOf (o.name.map string)).optional string? = some o.name :=
      optional_map fun _ _ ↦ ⟨rfl, Json.noConfusion⟩
    have hrequired : (slotOf (o.required.map bool)).optional bool? = some o.required :=
      optional_map fun _ _ ↦ ⟨rfl, Json.noConfusion⟩
    have hannotations : (slotOf (nonemptyMembers o.annotations string)).orEmpty
        (members? string?) = some o.annotations := orEmpty_nonemptyMembers fun _ _ ↦ rfl
    rw [TypeObject.ofJsonUpTo?, slots?_typeObject]
    simp only [bind, Option.bind, required_string, helement, hattributes, hname, hrequired,
      hannotations]
    cases o
    rfl

/-- A type object is read from its JSON form. -/
theorem ofJson?_typeObject (o : TypeObject) : TypeObject.ofJson? o.toJson = some o :=
  ofJsonUpTo?_toJson _ o (Nat.le_refl _)

/-! ### Declarations -/

private theorem optional_typeObject (o : Option TypeObject) :
    (slotOf (o.map TypeObject.toJson)).optional TypeObject.ofJson? = some o :=
  optional_map fun a _ ↦ ⟨ofJson?_typeObject a, toJson_ne_null a⟩

private theorem optional_strings (texts : Option (List String)) :
    (slotOf (texts.map strings)).optional (list? string?) = some texts :=
  optional_map fun a _ ↦ ⟨list?_strings a, Json.noConfusion⟩

private theorem orEmpty_annotations (annotations : Members String) :
    (slotOf (nonemptyMembers annotations string)).orEmpty (members? string?) = some annotations :=
  orEmpty_nonemptyMembers fun _ _ ↦ rfl

private theorem toJson_entityTypeObject (o : EntityTypeObject) :
    o.toJson = object (fieldMembers
      [("annotations", nonemptyMembers o.annotations string), ("enum", o.values.map strings),
        ("memberOfTypes", o.memberOfTypes.map strings),
        ("shape", o.shape.map TypeObject.toJson), ("tags", o.tags.map TypeObject.toJson)]) := by
  simp [EntityTypeObject.toJson, fieldMembers, annotationsMember_eq]

/-- The object of an entity type is read from its JSON form. -/
theorem ofJson?_entityTypeObject (o : EntityTypeObject) :
    EntityTypeObject.ofJson? o.toJson = some o := by
  rw [EntityTypeObject.ofJson?, toJson_entityTypeObject, slots?_fieldMembers (by simp) (by simp)]
  simp [List.lookup_cons, optional_strings, optional_typeObject, orEmpty_annotations]

private theorem toJson_actionRefObject (o : ActionRefObject) :
    o.toJson = object (fieldMembers [("id", some (string o.id)), ("type", o.type.map string)]) := by
  simp [ActionRefObject.toJson, fieldMembers, memberOf?]

/-- The object of a reference to an action is read from its JSON form. -/
theorem ofJson?_actionRefObject (o : ActionRefObject) :
    ActionRefObject.ofJson? o.toJson = some o := by
  have htype : (slotOf (o.type.map string)).optional string? = some o.type :=
    optional_map fun _ _ ↦ ⟨rfl, Json.noConfusion⟩
  rw [ActionRefObject.ofJson?, toJson_actionRefObject, slots?_fieldMembers (by simp) (by simp)]
  simp [List.lookup_cons, htype, required_string]

private theorem toJson_appliesToObject (o : AppliesToObject) :
    o.toJson = object (fieldMembers
      [("context", o.context.map TypeObject.toJson),
        ("principalTypes", o.principalTypes.map strings),
        ("resourceTypes", o.resourceTypes.map strings)]) := by
  simp [AppliesToObject.toJson, fieldMembers]

/-- The object of what an action applies to is read from its JSON form. -/
theorem ofJson?_appliesToObject (o : AppliesToObject) :
    AppliesToObject.ofJson? o.toJson = some o := by
  rw [AppliesToObject.ofJson?, toJson_appliesToObject, slots?_fieldMembers (by simp) (by simp)]
  simp [List.lookup_cons, optional_strings, optional_typeObject]

private theorem toJson_actionObject (o : ActionObject) :
    o.toJson = object (fieldMembers
      [("annotations", nonemptyMembers o.annotations string),
        ("appliesTo", o.appliesTo.map AppliesToObject.toJson),
        ("memberOf", o.memberOf.map fun refs ↦ array (refs.map ActionRefObject.toJson))]) := by
  simp [ActionObject.toJson, fieldMembers, annotationsMember_eq]

/-- The object of an action is read from its JSON form. -/
theorem ofJson?_actionObject (o : ActionObject) : ActionObject.ofJson? o.toJson = some o := by
  have happliesTo : (slotOf (o.appliesTo.map AppliesToObject.toJson)).optional
      AppliesToObject.ofJson? = some o.appliesTo :=
    optional_map fun a _ ↦ ⟨ofJson?_appliesToObject a, Json.noConfusion⟩
  have hmemberOf : (slotOf (o.memberOf.map fun refs ↦
      array (refs.map ActionRefObject.toJson))).optional (list? ActionRefObject.ofJson?) =
        some o.memberOf :=
    optional_map fun refs _ ↦ ⟨list?_map fun r _ ↦ ofJson?_actionRefObject r, Json.noConfusion⟩
  rw [ActionObject.ofJson?, toJson_actionObject, slots?_fieldMembers (by simp) (by simp)]
  simp [List.lookup_cons, hmemberOf, happliesTo, orEmpty_annotations]

/-! ### Namespaces and documents -/

private theorem toJson_namespaceObject (o : NamespaceObject) :
    o.toJson = object (fieldMembers
      [("actions", some (object (o.actions.map fun m ↦ (m.1, m.2.toJson)))),
        ("annotations", nonemptyMembers o.annotations string),
        ("commonTypes", nonemptyMembers o.commonTypes TypeObject.toJson),
        ("entityTypes", some (object (o.entityTypes.map fun m ↦ (m.1, m.2.toJson))))]) := by
  have hcommonTypes : (if o.commonTypes.isEmpty then []
      else [("commonTypes", object (typeMembers o.commonTypes))]) =
      memberOf? "commonTypes" (nonemptyMembers o.commonTypes TypeObject.toJson) := by
    cases h : o.commonTypes with
    | nil => rfl
    | cons m members =>
      rw [typeMembers_eq]
      rfl
  rw [NamespaceObject.toJson, annotationsMember_eq, hcommonTypes]
  simp [fieldMembers, memberOf?]

/-- The object of a namespace is read from its JSON form. -/
theorem ofJson?_namespaceObject (o : NamespaceObject) :
    NamespaceObject.ofJson? o.toJson = some o := by
  have hread : (slotOf (nonemptyMembers o.commonTypes TypeObject.toJson)).orEmpty
      (members? TypeObject.ofJson?) = some o.commonTypes :=
    orEmpty_nonemptyMembers fun m _ ↦ ofJson?_typeObject m.2
  have hentityTypes : (slotOf (some (object (o.entityTypes.map fun m ↦
      (m.1, m.2.toJson))))).required (members? EntityTypeObject.ofJson?) = some o.entityTypes :=
    members?_map fun m _ ↦ ofJson?_entityTypeObject m.2
  have hactions : (slotOf (some (object (o.actions.map fun m ↦ (m.1, m.2.toJson))))).required
      (members? ActionObject.ofJson?) = some o.actions :=
    members?_map fun m _ ↦ ofJson?_actionObject m.2
  rw [NamespaceObject.ofJson?, toJson_namespaceObject, slots?_fieldMembers (by simp) (by simp)]
  simp [List.lookup_cons, hread, hentityTypes, hactions, orEmpty_annotations]

/-- A document is read from its JSON form. -/
theorem ofJson?_document (d : Document) : Document.ofJson? (Document.toJson d) = some d :=
  members?_map fun m _ ↦ ofJson?_namespaceObject m.2

/-! ### Depth -/

namespace Json

variable {n : Nat}

/-- The value has no numbers in it, and at most the given number of arrays and objects enclose one
another in it. -/
def Fits (n : Nat) (j : Json) : Prop := j.HasNoNumbers ∧ j.depth ≤ n

/-- A string fits. -/
theorem fits_string (n : Nat) (s : String) : Fits n (string s) := ⟨rfl, Nat.zero_le n⟩

/-- A truth value fits. -/
theorem fits_bool (n : Nat) (b : Bool) : Fits n (bool b) := ⟨rfl, Nat.zero_le n⟩

/-- An array of values that fit fits with one more level. -/
theorem fits_array {items : List Json} (h : ∀ item ∈ items, Fits n item) :
    Fits (n + 1) (array items) :=
  ⟨allNumbersItems_iff.mpr fun item hi ↦ (h item hi).1,
    Nat.succ_le_succ (depthItems_le_iff.mpr fun item hi ↦ (h item hi).2)⟩

/-- An object of values that fit fits with one more level. -/
theorem fits_object {members : List (String × Json)} (h : ∀ m ∈ members, Fits n m.2) :
    Fits (n + 1) (object members) :=
  ⟨allNumbersMembers_iff.mpr fun m hm ↦ (h m hm).1,
    Nat.succ_le_succ (depthMembers_le_iff.mpr fun m hm ↦ (h m hm).2)⟩

/-- What fits also fits with more room. -/
theorem Fits.mono {m : Nat} {j : Json} (h : Fits n j) (hm : n ≤ m) : Fits m j :=
  ⟨h.1, Nat.le_trans h.2 hm⟩

/-- Fixed fields fit if the values that they have do. -/
theorem fits_fieldMembers {fields : List (String × Option Json)}
    (h : ∀ f ∈ fields, ∀ value ∈ f.2, Fits n value) :
    Fits (n + 1) (object (fieldMembers fields)) := by
  refine fits_object fun m hm ↦ ?_
  obtain ⟨f, hf, hm⟩ := List.mem_flatMap.mp hm
  cases hvalue : f.2 with
  | none =>
    rw [hvalue] at hm
    cases hm
  | some value =>
    rw [hvalue] at hm
    rw [List.mem_singleton.mp hm]
    exact h f hf value hvalue

private theorem fits_map {α : Type} {write : α → Json} {a? : Option α}
    (h : ∀ a ∈ a?, Fits n (write a)) : ∀ value ∈ a?.map write, Fits n value := by
  intro value hvalue
  obtain ⟨a, ha, rfl⟩ := Option.map_eq_some_iff.mp hvalue
  exact h a ha

private theorem fits_members {α : Type} {write : α → Json} {members : Members α}
    (h : ∀ m ∈ members, Fits n (write m.2)) :
    Fits (n + 1) (object (members.map fun m ↦ (m.1, write m.2))) := by
  refine fits_object fun m hm ↦ ?_
  obtain ⟨a, ha, rfl⟩ := List.mem_map.mp hm
  exact h a ha

private theorem fits_nonemptyMembers {α : Type} {write : α → Json} {members : Members α}
    (h : ∀ m ∈ members, Fits n (write m.2)) :
    ∀ value ∈ nonemptyMembers members write, Fits (n + 1) value := by
  intro value hvalue
  rw [nonemptyMembers] at hvalue
  split at hvalue
  · cases hvalue
  · cases hvalue
    exact fits_members h

private theorem fits_strings (n : Nat) (texts : List String) : Fits (n + 1) (strings texts) := by
  refine fits_array fun item hi ↦ ?_
  obtain ⟨text, -, rfl⟩ := List.mem_map.mp hi
  exact fits_string n text

end Json

private theorem fits_annotations (n : Nat) (annotations : Members String) :
    ∀ value ∈ nonemptyMembers annotations string, Fits (n + 1) value :=
  fits_nonemptyMembers fun _ _ ↦ fits_string n _

private theorem fits_optionalStrings (n : Nat) (texts : Option (List String)) :
    ∀ value ∈ texts.map strings, Fits (n + 1) value :=
  fits_map fun texts _ ↦ fits_strings n texts

private theorem fits_optionalString (n : Nat) (text : Option String) :
    ∀ value ∈ text.map string, Fits n value :=
  fits_map fun text _ ↦ fits_string n text

variable {n : Nat}

/-- A type object fits if the type objects inside it do. -/
theorem fits_typeObject {o : TypeObject} (helement : ∀ e ∈ o.element, Fits (n + 2) e.toJson)
    (hattributes : ∀ members ∈ o.attributes, ∀ m ∈ members, Fits (n + 1) m.2.toJson) :
    Fits (n + 3) o.toJson := by
  have hmembers : ∀ value ∈ o.attributes.map fun members ↦ object (typeMembers members),
      Fits (n + 2) value := by
    refine fits_map fun members hm ↦ ?_
    rw [typeMembers_eq]
    exact fits_members (hattributes members hm)
  rw [toJson_typeObject]
  refine fits_fieldMembers ?_
  simp only [typeFields, List.forall_mem_cons]
  refine ⟨fits_annotations (n + 1) _, hmembers, fits_map helement, fits_optionalString _ _,
    fits_map fun b _ ↦ fits_bool _ b, ?_, nofun⟩
  rintro _ ⟨⟩
  exact fits_string _ _

/-- The JSON forms of the type objects in the object of a namespace fit. -/
structure NamespaceObject.TypesFit (n : Nat) (o : NamespaceObject) : Prop where
  commonTypes : ∀ m ∈ o.commonTypes, Fits n m.2.toJson
  shapes : ∀ m ∈ o.entityTypes, ∀ t ∈ m.2.shape, Fits n t.toJson
  tags : ∀ m ∈ o.entityTypes, ∀ t ∈ m.2.tags, Fits n t.toJson
  contexts : ∀ m ∈ o.actions, ∀ a ∈ m.2.appliesTo, ∀ t ∈ a.context, Fits n t.toJson

private theorem fits_entityTypeObject {o : EntityTypeObject}
    (hshape : ∀ t ∈ o.shape, Fits (n + 1) t.toJson)
    (htags : ∀ t ∈ o.tags, Fits (n + 1) t.toJson) : Fits (n + 2) o.toJson := by
  rw [toJson_entityTypeObject]
  refine fits_fieldMembers ?_
  simp only [List.forall_mem_cons]
  exact ⟨fits_annotations n _, fits_optionalStrings n _, fits_optionalStrings n _,
    fits_map hshape, fits_map htags, nofun⟩

private theorem fits_appliesToObject {o : AppliesToObject}
    (hcontext : ∀ t ∈ o.context, Fits (n + 1) t.toJson) : Fits (n + 2) o.toJson := by
  rw [toJson_appliesToObject]
  refine fits_fieldMembers ?_
  simp only [List.forall_mem_cons]
  exact ⟨fits_map hcontext, fits_optionalStrings n _, fits_optionalStrings n _, nofun⟩

private theorem fits_actionRefObject (o : ActionRefObject) : Fits (n + 1) o.toJson := by
  rw [toJson_actionRefObject]
  refine fits_fieldMembers ?_
  simp only [List.forall_mem_cons]
  refine ⟨?_, fits_optionalString n _, nofun⟩
  rintro _ ⟨⟩
  exact fits_string n _

private theorem fits_actionObject {o : ActionObject}
    (hcontext : ∀ a ∈ o.appliesTo, ∀ t ∈ a.context, Fits (n + 1) t.toJson) :
    Fits (n + 3) o.toJson := by
  have hrefs : ∀ value ∈ o.memberOf.map fun refs ↦ array (refs.map ActionRefObject.toJson),
      Fits (n + 2) value := by
    refine fits_map fun refs _ ↦ fits_array fun item hi ↦ ?_
    obtain ⟨r, -, rfl⟩ := List.mem_map.mp hi
    exact fits_actionRefObject r
  rw [toJson_actionObject]
  refine fits_fieldMembers ?_
  simp only [List.forall_mem_cons]
  exact ⟨fits_annotations (n + 1) _, fits_map fun a ha ↦ fits_appliesToObject (hcontext a ha),
    hrefs, nofun⟩

private theorem fits_namespaceObject {o : NamespaceObject} (h : o.TypesFit (n + 1)) :
    Fits (n + 5) o.toJson := by
  rw [toJson_namespaceObject]
  refine fits_fieldMembers ?_
  simp only [List.forall_mem_cons]
  refine ⟨?_, fits_annotations (n + 3) _, ?_, ?_, nofun⟩
  · rintro _ ⟨⟩
    exact fits_members fun m hm ↦ fits_actionObject (h.contexts m hm)
  · exact fits_nonemptyMembers fun m hm ↦ (h.commonTypes m hm).mono (by omega)
  · rintro _ ⟨⟩
    exact fits_members fun m hm ↦
      (fits_entityTypeObject (h.shapes m hm) (h.tags m hm)).mono (by omega)

/-- The JSON form of a document has at most five levels more than the types in it. -/
theorem fits_document {d : Document} (h : ∀ m ∈ d, m.2.TypesFit (n + 1)) :
    Fits (n + 6) (Document.toJson d) :=
  fits_members fun m hm ↦ fits_namespaceObject (h m hm)

end PolicySchema
