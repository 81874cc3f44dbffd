import PolicySchema.Proofs.Document.JsonForm

/-!
# What objects give to fixed fields

A value with fixed fields may be written as an object, which names the fields that it gives, or as
an array of their values. Where all are objects (`Json.namesFields`), each field that was read has a
member of its own in the object, which names no field twice.
-/

namespace PolicySchema

open Json

/-! ### Values with fixed fields -/

/-- The kinds of values with fixed fields in a document. -/
inductive Struct where
  | schemaNamespace
  | entityType
  | action
  | actionRef
  | appliesTo
  | typeObject

/-- Where a value has values with fixed fields. -/
inductive Layout where
  /-- Nowhere. -/
  | plain
  /-- It is one. -/
  | struct (s : Struct)
  /-- It is an array of them. -/
  | items (s : Struct)
  /-- It is an object of them, with chosen keys. -/
  | members (s : Struct)

/-- Where the value of a field has values with fixed fields. -/
def Struct.field : Struct → String → Layout
  | schemaNamespace, "commonTypes" => .members typeObject
  | schemaNamespace, "entityTypes" => .members entityType
  | schemaNamespace, "actions" => .members action
  | entityType, "shape" | entityType, "tags" => .struct typeObject
  | action, "memberOf" => .items actionRef
  | action, "appliesTo" => .struct appliesTo
  | appliesTo, "context" => .struct typeObject
  | typeObject, "element" => .struct typeObject
  | typeObject, "attributes" => .members typeObject
  | _, _ => .plain

mutual

/-- No value with fixed fields is written as an array of the values of its fields. -/
def Json.namesFields : Layout → Json → Bool
  | .struct _, .array _ => false
  | .struct s, .object members => fieldsNameFields s members
  | .items s, .array items => itemsNameFields s items
  | .members s, .object members => membersNameFields s members
  | _, _ => true

/-- No value with fixed fields in the fields of another is written as an array. -/
def Json.fieldsNameFields (s : Struct) : List (String × Json) → Bool
  | [] => true
  | (key, value) :: rest => namesFields (s.field key) value && fieldsNameFields s rest

/-- No value with fixed fields in items is written as an array. -/
def Json.itemsNameFields (s : Struct) : List Json → Bool
  | [] => true
  | item :: rest => namesFields (.struct s) item && itemsNameFields s rest

/-- No value with fixed fields in members is written as an array. -/
def Json.membersNameFields (s : Struct) : List (String × Json) → Bool
  | [] => true
  | (_, value) :: rest => namesFields (.struct s) value && membersNameFields s rest

end

namespace Json

variable {s : Struct}

private theorem fieldsNameFields_iff {members : List (String × Json)} :
    fieldsNameFields s members = true ↔ ∀ m ∈ members, namesFields (s.field m.1) m.2 = true := by
  induction members with
  | nil => simp [fieldsNameFields]
  | cons m members ih => rw [fieldsNameFields, Bool.and_eq_true, ih, List.forall_mem_cons]

/-- Items name their fields if each of them does. -/
theorem itemsNameFields_iff {items : List Json} :
    itemsNameFields s items = true ↔ ∀ item ∈ items, namesFields (.struct s) item = true := by
  induction items with
  | nil => simp [itemsNameFields]
  | cons item items ih => rw [itemsNameFields, Bool.and_eq_true, ih, List.forall_mem_cons]

/-- Members name their fields if the value of each of them does. -/
theorem membersNameFields_iff {members : List (String × Json)} :
    membersNameFields s members = true ↔ ∀ m ∈ members, namesFields (.struct s) m.2 = true := by
  induction members with
  | nil => simp [membersNameFields]
  | cons m members ih => rw [membersNameFields, Bool.and_eq_true, ih, List.forall_mem_cons]

/-- The field of an object of the kind is given a value that is read. -/
def Gives {α : Type} (s : Struct) (members : List (String × Json)) (key : String)
    (read? : Json → Option α) (a : α) : Prop :=
  ∃ value, (key, value) ∈ members ∧ namesFields (s.field key) value = true ∧ read? value = some a

private theorem mem_of_member? {key : String} {value : Json} : ∀ {members : List (String × Json)},
    member? key members = some value → (key, value) ∈ members
  | (k, v) :: rest, h => by
    rw [member?] at h
    split at h
    · next hk =>
      cases h
      exact hk ▸ List.mem_cons_self
    · exact List.mem_cons_of_mem _ (mem_of_member? h)

/-- A value with fixed fields that is read, and names them, is an object that repeats no key, and
what each field is given is its member. -/
theorem exists_object_of_slots? {α : Type} {fields : List String} {j : Json}
    {make? : List Slot → Option α} {a : α} (h : (slots? fields j).bind make? = some a)
    (hj : j.namesFields (.struct s) = true) :
    ∃ members, j = object members ∧ (members.map Prod.fst).Nodup ∧
      fieldsNameFields s members = true ∧
      make? (fields.map fun field ↦ slotOf (member? field members)) = some a := by
  obtain ⟨slots, hslots, hmake⟩ := Option.bind_eq_some_iff.mp h
  unfold slots? at hslots
  split at hslots
  · next members =>
    dsimp only at hslots
    split at hslots
    · next hkeys =>
      rw [Bool.and_eq_true, Option.isNone_iff_eq_none, firstRepeated?_eq_none_iff] at hkeys
      cases hslots
      refine ⟨members, rfl, hkeys.2.1, hj, hmake ▸ congrArg make? ?_⟩
      refine List.map_congr_left fun field _ ↦ ?_
      cases member? field members <;> rfl
    · cases hslots
  · cases hj
  · cases hslots

section

variable {α : Type} {members : List (String × Json)} {key : String}

private theorem gives_of_slotOf {value : Json} {read? : Json → Option α} {a : α}
    (hfields : fieldsNameFields s members = true)
    (hslot : slotOf (member? key members) = .given value) (hread : read? value = some a) :
    Gives s members key read? a := by
  generalize hvalue : member? key members = value? at hslot
  cases value? with
  | none => cases hslot
  | some value =>
    cases hslot
    have hmem := mem_of_member? hvalue
    exact ⟨_, hmem, fieldsNameFields_iff.mp hfields _ hmem, hread⟩

/-- A required field that is read has a member. -/
theorem gives_of_required {read? : Json → Option α} {a : α}
    (hfields : fieldsNameFields s members = true)
    (h : (slotOf (member? key members)).required read? = some a) : Gives s members key read? a := by
  generalize hslot : slotOf (member? key members) = slot at h
  cases slot with
  | given value => exact gives_of_slotOf hfields hslot h
  | _ => cases h

/-- An optional field that is read, and is not null, has a member. -/
theorem gives_of_optional {read? : Json → Option α} {a? : Option α}
    (hfields : fieldsNameFields s members = true)
    (h : (slotOf (member? key members)).optional read? = some a?) :
    ∀ a ∈ a?, Gives s members key read? a := by
  generalize hslot : slotOf (member? key members) = slot at h
  unfold Slot.optional at h
  split at h
  · cases h
    exact nofun
  · cases h
  · cases h
    exact nofun
  · obtain ⟨a, ha, rfl⟩ := Option.map_eq_some_iff.mp h
    rintro _ ⟨⟩
    exact gives_of_slotOf hfields hslot ha

/-- A list that is read is empty unless its field has a member. -/
theorem gives_of_orEmpty {read? : Json → Option (List α)} {as : List α}
    (hfields : fieldsNameFields s members = true)
    (h : (slotOf (member? key members)).orEmpty read? = some as) :
    as = [] ∨ Gives s members key read? as := by
  generalize hslot : slotOf (member? key members) = slot at h
  cases slot with
  | given value => exact .inr (gives_of_slotOf hfields hslot h)
  | _ =>
    cases h
    exact .inl rfl

end

end Json

end PolicySchema
