import PolicySchema.Document.Read
import PolicySchema.Proofs.Document.Members
import PolicySchema.Proofs.Json.DistinctKeys
import PolicySchema.Proofs.Related

/-!
# A document that is read repeats no key

Fixed fields may not be given twice and no other is allowed. The members of an object with chosen
keys are kept as they are written, and a repeated key among them is noticed when they are read. So
everything that a reading uses must be looked at by some reader on the way: the annotations of a
type object, for example, by that of the attribute or common type that it declares, or by that of
the record that it is. What is read of a value is then plain (`isPlain_of_readValue`).
-/

namespace PolicySchema

open Json

/-! ### Fixed fields -/

/-- What the field was given is plain. -/
def Slot.IsPlain : Slot → Prop
  | .missing | .cut => True
  | .given value => value.IsPlain

section

variable {α : Type} {slot : Slot} {read? : Json → Option α}

private theorem isPlain_of_required {a : α} (h : slot.required read? = some a)
    (hread : ∀ value, read? value = some a → value.IsPlain) : slot.IsPlain := by
  cases slot with
  | missing => trivial
  | cut => trivial
  | given value => exact hread value h

private theorem isPlain_of_optional {a : Option α} (h : slot.optional read? = some a)
    (hread : ∀ value b, a = some b → read? value = some b → value.IsPlain) : slot.IsPlain := by
  unfold Slot.optional at h
  split at h
  · trivial
  · trivial
  · exact ⟨trivial, rfl⟩
  · obtain ⟨b, hb, rfl⟩ := Option.map_eq_some_iff.mp h
    exact hread _ b rfl hb

private theorem isPlain_of_orEmpty {read? : Json → Option (List α)} {as : List α}
    (h : slot.orEmpty read? = some as) (hread : ∀ value, read? value = some as → value.IsPlain) :
    slot.IsPlain := by
  cases slot with
  | missing => trivial
  | cut => trivial
  | given value => exact hread value h

end

/-- The value under a key that no other member has is what the key gives. -/
theorem Json.member?_eq_some {key : String} {value : Json} : ∀ {members : List (String × Json)},
    (members.map Prod.fst).Nodup → (key, value) ∈ members → member? key members = some value
  | (k, v) :: rest, hkeys, hmem => by
    obtain ⟨hk, hrest⟩ := List.nodup_cons.mp hkeys
    rw [member?]
    rcases List.mem_cons.mp hmem with heq | hmem
    · cases heq
      rw [if_pos rfl]
    · have hkey : key ∈ rest.map Prod.fst := List.mem_map_of_mem hmem
      rw [if_neg (ne_of_mem_of_not_mem hkey hk)]
      exact member?_eq_some hrest hmem

private theorem isPlain_of_slots? {fields : List String} {j : Json} {slots : List Slot}
    (h : slots? fields j = some slots) (hslots : ∀ slot ∈ slots, slot.IsPlain) : j.IsPlain := by
  unfold slots? at h
  split at h
  · next members =>
    dsimp only at h
    split at h
    · next hkeys =>
      rw [Bool.and_eq_true, List.all_eq_true, Option.isNone_iff_eq_none,
        firstRepeated?_eq_none_iff] at hkeys
      obtain ⟨hfields, hnodup, -⟩ := hkeys
      cases h
      refine isPlain_object hnodup fun m hm ↦ ?_
      have hfield := List.contains_iff_mem.mp (hfields m.1 (List.mem_map_of_mem hm))
      have hslot := hslots _ (List.mem_map_of_mem hfield)
      rwa [member?_eq_some hnodup hm] at hslot
    · cases h
  · split at h
    · cases h
      refine isPlain_array fun item hi ↦ ?_
      exact hslots _ (List.mem_append_left _ (List.mem_map_of_mem hi))
    · cases h
  · cases h

/-! ### Lists and chosen keys -/

private theorem isPlain_of_string? {j : Json} {s : String} (h : string? j = some s) :
    j.IsPlain := by
  cases j <;> cases h
  exact isPlain_string _

private theorem isPlain_of_bool? {j : Json} {b : Bool} (h : bool? j = some b) : j.IsPlain := by
  cases j <;> cases h
  exact ⟨trivial, rfl⟩

section

variable {α β : Type} {read? : Json → Option α} {j : Json}

/-- A list is read if each of its items is. -/
theorem Json.list?_eq_some_iff {as : List α} : list? read? j = some as ↔
    ∃ items, j = array items ∧ List.Forall₂ (fun item a ↦ read? item = some a) items as := by
  cases j with
  | array items =>
    simp only [list?, array.injEq, exists_eq_left']
    induction items generalizing as with
    | nil => simp [eq_comm]
    | cons item items ih =>
      simp only [List.mapM_cons, Option.bind_eq_bind, Option.bind_eq_some_iff, ih,
        List.forall₂_cons_left_iff, Option.pure_def, Option.some.injEq]
      constructor
      · rintro ⟨a, ha, rest, hrest, rfl⟩
        exact ⟨a, rest, ha, hrest, rfl⟩
      · rintro ⟨a, rest, ha, hrest, rfl⟩
        exact ⟨a, ha, rest, hrest, rfl⟩
  | _ => simp [list?]

/-- An object with chosen keys is read if the value of each of its members is. -/
theorem Json.members?_eq_some_iff {ms : Members α} : members? read? j = some ms ↔
    ∃ members, j = object members ∧
      List.Forall₂ (fun m a ↦ m.1 = a.1 ∧ read? m.2 = some a.2) members ms := by
  cases j with
  | object members =>
    simp only [members?, object.injEq, exists_eq_left']
    induction members generalizing ms with
    | nil => simp [eq_comm]
    | cons m members ih =>
      simp only [List.mapM_cons, Option.bind_eq_bind, Option.bind_eq_some_iff,
        Option.map_eq_some_iff, ih, List.forall₂_cons_left_iff, Option.pure_def, Option.some.injEq]
      constructor
      · rintro ⟨_, ⟨a, ha, rfl⟩, rest, hrest, rfl⟩
        exact ⟨_, rest, ⟨rfl, ha⟩, hrest, rfl⟩
      · rintro ⟨⟨_, a⟩, rest, ⟨rfl, ha⟩, hrest, rfl⟩
        exact ⟨_, ⟨a, ha, rfl⟩, rest, hrest, rfl⟩
  | _ => simp [members?]

private theorem isPlain_of_list? {as : List α} (h : list? read? j = some as)
    (hread : ∀ value, ∀ a ∈ as, read? value = some a → value.IsPlain) : j.IsPlain := by
  obtain ⟨items, rfl, hitems⟩ := list?_eq_some_iff.mp h
  refine isPlain_array fun item hi ↦ ?_
  obtain ⟨a, ha, hitem⟩ := exists_right_of_forall₂ hitems hi
  exact hread item a ha hitem

/-- Members that are read have the keys that are written. -/
theorem keys_eq_of_forall₂ {members : List (String × α)} {ms : List (String × β)}
    {P : String × α → String × β → Prop}
    (h : List.Forall₂ (fun m a ↦ m.1 = a.1 ∧ P m a) members ms) :
    members.map Prod.fst = ms.map Prod.fst := by
  induction h with
  | nil => rfl
  | cons hm _ ih => rw [List.map_cons, List.map_cons, hm.1, ih]

private theorem isPlain_of_members? {ms : Members α} (h : members? read? j = some ms)
    (hkeys : (ms.map Prod.fst).Nodup)
    (hread : ∀ value, ∀ m ∈ ms, read? value = some m.2 → value.IsPlain) : j.IsPlain := by
  obtain ⟨members, rfl, hmembers⟩ := members?_eq_some_iff.mp h
  rw [← keys_eq_of_forall₂ hmembers] at hkeys
  refine isPlain_object hkeys fun m hm ↦ ?_
  obtain ⟨a, ha, -, hvalue⟩ := exists_right_of_forall₂ hmembers hm
  exact hread m.2 a ha hvalue

end

namespace Document

variable {path : Pointer}

/-! ### What a reader looks at -/

private theorem exists_of_mapM {α β : Type} {f : α → Except Error β} {a : α} :
    ∀ {l : List α} {r : List β}, l.mapM f = .ok r → a ∈ l → ∃ b, f a = .ok b
  | _ :: _, _, h, ha => by
    rw [List.mapM_cons] at h
    obtain ⟨b, hb, h⟩ := Except.bind_eq_ok_iff.mp h
    obtain ⟨rest, hrest, -⟩ := Except.bind_eq_ok_iff.mp h
    rcases List.mem_cons.mp ha with rfl | ha
    · exact ⟨b, hb⟩
    · exact exists_of_mapM hrest ha

/-- Members that are read have different keys, and each of them is read. -/
theorem nodup_of_membersAt {α β : Type} {read : Pointer → String → α → Except Error β}
    {members : Members α} {bs : List β} (h : membersAt path members read = .ok bs) :
    (members.map Prod.fst).Nodup ∧
      ∀ m ∈ members, ∃ b, read (path.child m.1) m.1 m.2 = .ok b := by
  obtain ⟨entries, hentries, h⟩ := Except.bind_eq_ok_iff.mp h
  unfold distinctMembers at hentries
  split at hentries
  · cases hentries
  · next hnone =>
    cases hentries
    have hnodup := (firstRepeated?_eq_none_iff.mp hnone).1
    refine ⟨hnodup, fun m hm ↦ ?_⟩
    have hentry := (Table.perm_entries_ofList hnodup).mem_iff.mpr hm
    exact exists_of_mapM (f := fun m ↦ read (path.child m.1) m.1 m.2) h hentry

private theorem nodup_of_annotationsAt {members : Members String} {notes : Annotations}
    (h : annotationsAt path members = .ok notes) : (members.map Prod.fst).Nodup := by
  obtain ⟨entries, hentries, -⟩ := Except.bind_eq_ok_iff.mp h
  exact (nodup_of_membersAt hentries).1

private theorem isPlain_annotations {slot : Slot} {members : Members String}
    (h : slot.orEmpty (members? string?) = some members) (hkeys : (members.map Prod.fst).Nodup) :
    slot.IsPlain :=
  isPlain_of_orEmpty h fun _ hmembers ↦
    isPlain_of_members? hmembers hkeys fun _ _ _ ↦ isPlain_of_string?

/-! ### Type objects -/

private def IsRead (o : TypeObject) : Prop :=
  (o.annotations.map Prod.fst).Nodup ∧ ∃ room place path t, typeUpTo room place path o = .ok t

section

variable {o : TypeObject} {place : Place} {room : Nat} {t : TypeExpr TypeRef}

private theorem mem_fieldsFor (h : vetObject place path o = .ok ()) (field : String)
    (hfield : field ∈ givenFields o) : field ∈ fieldsFor o.type := by
  unfold vetObject at h
  split at h
  · cases h
  · split at h
    · cases h
    · next hnone => simpa using List.find?_eq_none.mp hnone field hfield

private theorem type_eq_of_element (h : vetObject place path o = .ok ()) {e : TypeObject}
    (he : o.element = some e) : o.type = "Set" := by
  have hfield := mem_fieldsFor h "element" (by simp [givenFields, he])
  unfold fieldsFor at hfield
  split_ifs at hfield with htype <;> simp_all

private theorem type_eq_of_attributes (h : vetObject place path o = .ok ())
    {ms : List (String × TypeObject)} (hms : o.attributes = some ms) : o.type = "Record" := by
  have hfield := mem_fieldsFor h "attributes" (by simp [givenFields, hms])
  unfold fieldsFor at hfield
  split_ifs at hfield with _ htype <;> simp_all

private theorem annotations_eq_nil (h : vetObject .inner path o = .ok ())
    (htype : o.type ≠ "Record") : o.annotations = [] := by
  unfold vetObject at h
  split at h
  · cases h
  · split at h
    · cases h
    · split at h
      · cases h
      · next hnotes => simpa [Place.isDeclaring, htype] using hnotes

private theorem recordAt_of_typeUpTo (h : typeUpTo room place path o = .ok t)
    (htype : o.type = "Record") :
    ∃ room', recordAt (typeUpTo room') place path o = .ok t := by
  cases room with
  | zero =>
    obtain ⟨-, -, h⟩ := Except.bind_eq_ok_iff.mp h
    simp [htype, failAt] at h
  | succ room =>
    obtain ⟨-, -, h⟩ := Except.bind_eq_ok_iff.mp h
    exact ⟨room, by simpa [htype] using h⟩

private theorem setAt_of_typeUpTo (h : typeUpTo room place path o = .ok t)
    (htype : o.type = "Set") : ∃ room', setAt (typeUpTo room') path o = .ok t := by
  cases room with
  | zero =>
    obtain ⟨-, -, h⟩ := Except.bind_eq_ok_iff.mp h
    simp [htype, failAt] at h
  | succ room =>
    obtain ⟨-, -, h⟩ := Except.bind_eq_ok_iff.mp h
    exact ⟨room, by simpa [htype] using h⟩

private theorem vetObject_of_typeUpTo (h : typeUpTo room place path o = .ok t) :
    vetObject place path o = .ok () := by
  cases room <;> exact (Except.bind_eq_ok_iff.mp h).choose_spec.1

private theorem isRead_inner (h : typeUpTo room .inner path o = .ok t) : IsRead o := by
  refine ⟨?_, room, _, path, t, h⟩
  -- A record reads its annotations. Any other type object has none here.
  by_cases htype : o.type = "Record"
  · obtain ⟨room', hrecord⟩ := recordAt_of_typeUpTo h htype
    unfold recordAt at hrecord
    split at hrecord
    · cases hrecord
    · obtain ⟨fields, -, hrecord⟩ := Except.bind_eq_ok_iff.mp hrecord
      obtain ⟨notes, hnotes, -⟩ := Except.bind_eq_ok_iff.mp hrecord
      exact nodup_of_annotationsAt hnotes
  · rw [annotations_eq_nil (vetObject_of_typeUpTo h) htype]
    exact List.nodup_nil

private theorem IsRead.element (h : IsRead o) {e : TypeObject} (he : o.element = some e) :
    IsRead e := by
  obtain ⟨-, room, place, path, t, h⟩ := h
  obtain ⟨room', hset⟩ := setAt_of_typeUpTo h (type_eq_of_element (vetObject_of_typeUpTo h) he)
  simp only [setAt, he] at hset
  obtain ⟨type, htype, -⟩ := Except.bind_eq_ok_iff.mp hset
  exact isRead_inner htype

private theorem IsRead.attributes (h : IsRead o) {ms : List (String × TypeObject)}
    (hms : o.attributes = some ms) : (ms.map Prod.fst).Nodup ∧ ∀ m ∈ ms, IsRead m.2 := by
  obtain ⟨-, room, place, path, t, h⟩ := h
  obtain ⟨room', hrecord⟩ :=
    recordAt_of_typeUpTo h (type_eq_of_attributes (vetObject_of_typeUpTo h) hms)
  simp only [recordAt, hms] at hrecord
  obtain ⟨fields, hfields, -⟩ := Except.bind_eq_ok_iff.mp hrecord
  obtain ⟨hnodup, hread⟩ := nodup_of_membersAt hfields
  refine ⟨hnodup, fun m hm ↦ ?_⟩
  obtain ⟨b, hb⟩ := hread m hm
  obtain ⟨notes, hnotes, hb⟩ := Except.bind_eq_ok_iff.mp hb
  obtain ⟨type, htype, -⟩ := Except.bind_eq_ok_iff.mp hb
  exact ⟨nodup_of_annotationsAt hnotes, _, _, _, _, htype⟩

end

private theorem isPlain_of_ofJsonUpTo? (n : Nat) {j : Json} {o : TypeObject}
    (h : TypeObject.ofJsonUpTo? n j = some o) (hread : IsRead o) : j.IsPlain := by
  induction n generalizing j o with
  | zero => cases h
  | succ n ih =>
    obtain ⟨slots, hslots, h⟩ := Option.bind_eq_some_iff.mp h
    split at h
    · next type element attributes name required annotations =>
      simp only [Option.bind_eq_bind, Option.bind_eq_some_iff, Option.pure_def,
        Option.some.injEq] at h
      obtain ⟨_, htype, _, helement, _, hattributes, _, hname, _, hrequired, _, hnotes, rfl⟩ := h
      refine isPlain_of_slots? hslots ?_
      simp only [List.forall_mem_cons]
      refine ⟨?_, ?_, ?_, ?_, ?_, ?_, nofun⟩
      · exact isPlain_of_required htype fun _ ↦ isPlain_of_string?
      · refine isPlain_of_optional helement fun _ e he h ↦ ?_
        exact ih h (hread.element he)
      · refine isPlain_of_optional hattributes fun _ ms hms h ↦ ?_
        obtain ⟨hnodup, hms⟩ := hread.attributes hms
        exact isPlain_of_members? h hnodup fun _ m hm h ↦ ih h (hms m hm)
      · exact isPlain_of_optional hname fun _ _ _ ↦ isPlain_of_string?
      · exact isPlain_of_optional hrequired fun _ _ _ ↦ isPlain_of_bool?
      · exact isPlain_annotations hnotes hread.1
    · cases h

/-! ### Declarations -/

private theorem isPlain_of_optionalTypeAt {slot : Slot} {key : String} {o : Option TypeObject}
    {t : Option (TypeExpr TypeRef)} (hslot : slot.optional TypeObject.ofJson? = some o)
    (h : optionalTypeAt path key o = .ok t) : slot.IsPlain := by
  refine isPlain_of_optional hslot fun _ type htype hjson ↦ ?_
  subst htype
  obtain ⟨u, hu, -⟩ := Except.map_eq_ok_iff.mp h
  exact isPlain_of_ofJsonUpTo? _ hjson (isRead_inner hu)

private theorem isPlain_strings {slot : Slot} {as : Option (List String)}
    (h : slot.optional (list? string?) = some as) : slot.IsPlain :=
  isPlain_of_optional h fun _ _ _ has ↦ isPlain_of_list? has fun _ _ _ ↦ isPlain_of_string?

private theorem exists_of_entityBodyAt {o : EntityTypeObject} {e : EntityType}
    (h : entityBodyAt path o = .ok e) : (∃ t, optionalTypeAt path "shape" o.shape = .ok t) ∧
      ∃ t, optionalTypeAt path "tags" o.tags = .ok t := by
  unfold entityBodyAt at h
  split at h
  · split at h
    · cases h
    · next hnone =>
      unfold conflictingField? at hnone
      split_ifs at hnone with hshape htags
      rw [Option.not_isSome_iff_eq_none] at hshape htags
      rw [hshape, htags]
      exact ⟨⟨none, rfl⟩, ⟨none, rfl⟩⟩
  · obtain ⟨memberOf, -, h⟩ := Except.bind_eq_ok_iff.mp h
    obtain ⟨shape, hshape, h⟩ := Except.bind_eq_ok_iff.mp h
    obtain ⟨tags, htags, -⟩ := Except.bind_eq_ok_iff.mp h
    obtain ⟨t, ht, -⟩ := Except.bind_eq_ok_iff.mp hshape
    exact ⟨⟨t, ht⟩, ⟨tags, htags⟩⟩

private theorem isPlain_of_entityTypeAt {j : Json} {o : EntityTypeObject} {key : String}
    {e : Identifier × Declaration EntityType} (hjson : EntityTypeObject.ofJson? j = some o)
    (h : entityTypeAt path key o = .ok e) : j.IsPlain := by
  obtain ⟨id, -, h⟩ := Except.bind_eq_ok_iff.mp h
  obtain ⟨notes, hnotes, h⟩ := Except.bind_eq_ok_iff.mp h
  obtain ⟨body, hbody, -⟩ := Except.bind_eq_ok_iff.mp h
  obtain ⟨⟨_, hshape⟩, ⟨_, htags⟩⟩ := exists_of_entityBodyAt hbody
  obtain ⟨slots, hslots, hjson⟩ := Option.bind_eq_some_iff.mp hjson
  split at hjson
  · simp only [Option.bind_eq_bind, Option.bind_eq_some_iff, Option.pure_def,
      Option.some.injEq] at hjson
    obtain ⟨_, hmemberOf, _, hshape', _, htags', _, hvalues, _, hnotes', rfl⟩ := hjson
    refine isPlain_of_slots? hslots ?_
    simp only [List.forall_mem_cons]
    refine ⟨isPlain_strings hmemberOf, isPlain_of_optionalTypeAt hshape' hshape,
      isPlain_of_optionalTypeAt htags' htags, isPlain_strings hvalues, ?_, nofun⟩
    exact isPlain_annotations hnotes' (nodup_of_annotationsAt hnotes)
  · cases hjson

private theorem isPlain_of_actionRef {j : Json} {o : ActionRefObject}
    (hjson : ActionRefObject.ofJson? j = some o) : j.IsPlain := by
  obtain ⟨slots, hslots, hjson⟩ := Option.bind_eq_some_iff.mp hjson
  split at hjson
  · simp only [Option.bind_eq_bind, Option.bind_eq_some_iff] at hjson
    obtain ⟨_, htype, _, hid, -⟩ := hjson
    refine isPlain_of_slots? hslots ?_
    simp only [List.forall_mem_cons]
    exact ⟨isPlain_of_optional htype fun _ _ _ ↦ isPlain_of_string?,
      isPlain_of_required hid fun _ ↦ isPlain_of_string?, nofun⟩
  · cases hjson

private theorem isPlain_of_appliesToAt {j : Json} {o : AppliesToObject} {a : Option AppliesTo}
    (hjson : AppliesToObject.ofJson? j = some o) (h : appliesToAt path (some o) = .ok a) :
    j.IsPlain := by
  obtain ⟨principals, -, h⟩ := Except.bind_eq_ok_iff.mp h
  obtain ⟨resources, -, h⟩ := Except.bind_eq_ok_iff.mp h
  obtain ⟨context, hcontext, -⟩ := Except.bind_eq_ok_iff.mp h
  obtain ⟨slots, hslots, hjson⟩ := Option.bind_eq_some_iff.mp hjson
  split at hjson
  · simp only [Option.bind_eq_bind, Option.bind_eq_some_iff, Option.pure_def,
      Option.some.injEq] at hjson
    obtain ⟨_, hprincipals, _, hresources, _, hcontext', rfl⟩ := hjson
    refine isPlain_of_slots? hslots ?_
    simp only [List.forall_mem_cons]
    exact ⟨isPlain_strings hprincipals, isPlain_strings hresources,
      isPlain_of_optionalTypeAt hcontext' hcontext, nofun⟩
  · cases hjson

private theorem isPlain_of_actionAt {j : Json} {o : ActionObject} {key : String}
    {e : String × Declaration Action} (hjson : ActionObject.ofJson? j = some o)
    (h : actionAt path key o = .ok e) : j.IsPlain := by
  obtain ⟨memberOf, -, h⟩ := Except.bind_eq_ok_iff.mp h
  obtain ⟨appliesTo, happlies, h⟩ := Except.bind_eq_ok_iff.mp h
  obtain ⟨notes, hnotes, -⟩ := Except.bind_eq_ok_iff.mp h
  obtain ⟨slots, hslots, hjson⟩ := Option.bind_eq_some_iff.mp hjson
  split at hjson
  · simp only [Option.bind_eq_bind, Option.bind_eq_some_iff, Option.pure_def,
      Option.some.injEq] at hjson
    obtain ⟨_, hmemberOf, _, happlies', _, hnotes', rfl⟩ := hjson
    refine isPlain_of_slots? hslots ?_
    simp only [List.forall_mem_cons]
    refine ⟨?_, ?_, isPlain_annotations hnotes' (nodup_of_annotationsAt hnotes), nofun⟩
    · exact isPlain_of_optional hmemberOf fun _ _ _ h ↦
        isPlain_of_list? h fun _ _ _ ↦ isPlain_of_actionRef
    · refine isPlain_of_optional happlies' fun _ block hblock hj ↦ ?_
      subst hblock
      exact isPlain_of_appliesToAt hj happlies
  · cases hjson

private theorem isPlain_of_commonTypeAt {j : Json} {o : TypeObject} {key : String}
    {e : Identifier × Declaration (TypeExpr TypeRef)} (hjson : TypeObject.ofJson? j = some o)
    (h : commonTypeAt path key o = .ok e) : j.IsPlain := by
  obtain ⟨id, -, h⟩ := Except.bind_eq_ok_iff.mp h
  obtain ⟨notes, hnotes, h⟩ := Except.bind_eq_ok_iff.mp h
  obtain ⟨type, htype, -⟩ := Except.bind_eq_ok_iff.mp h
  exact isPlain_of_ofJsonUpTo? _ hjson ⟨nodup_of_annotationsAt hnotes, _, _, _, _, htype⟩

/-! ### Schemas -/

private theorem isPlain_of_membersAt {α β : Type} {read? : Json → Option α}
    {read : Pointer → String → α → Except Error β} {j : Json} {ms : Members α} {bs : List β}
    (hjson : members? read? j = some ms) (h : membersAt path ms read = .ok bs)
    (hread : ∀ {j a path key b}, read? j = some a → read path key a = .ok b → j.IsPlain) :
    j.IsPlain := by
  obtain ⟨hnodup, hms⟩ := nodup_of_membersAt h
  refine isPlain_of_members? hjson hnodup fun _ m hm hvalue ↦ ?_
  obtain ⟨b, hb⟩ := hms m hm
  exact hread hvalue hb

private theorem isPlain_of_namespaceAt {j : Json} {o : NamespaceObject} {ns : Namespace}
    (hjson : NamespaceObject.ofJson? j = some o) (h : namespaceAt path o = .ok ns) :
    j.IsPlain := by
  obtain ⟨notes, hnotes, h⟩ := Except.bind_eq_ok_iff.mp h
  obtain ⟨cs, hcs, h⟩ := Except.bind_eq_ok_iff.mp h
  obtain ⟨es, hes, h⟩ := Except.bind_eq_ok_iff.mp h
  obtain ⟨as, has, -⟩ := Except.bind_eq_ok_iff.mp h
  obtain ⟨slots, hslots, hjson⟩ := Option.bind_eq_some_iff.mp hjson
  split at hjson
  · simp only [Option.bind_eq_bind, Option.bind_eq_some_iff, Option.pure_def,
      Option.some.injEq] at hjson
    obtain ⟨_, hnotes', _, hcs', _, hes', _, has', rfl⟩ := hjson
    refine isPlain_of_slots? hslots ?_
    simp only [List.forall_mem_cons]
    refine ⟨isPlain_annotations hnotes' (nodup_of_annotationsAt hnotes), ?_, ?_, ?_, nofun⟩
    · exact isPlain_of_orEmpty hcs' fun _ hj ↦
        isPlain_of_membersAt hj hcs isPlain_of_commonTypeAt
    · exact isPlain_of_required hes' fun _ hj ↦
        isPlain_of_membersAt hj hes isPlain_of_entityTypeAt
    · exact isPlain_of_required has' fun _ hj ↦
        isPlain_of_membersAt hj has isPlain_of_actionAt
  · cases hjson

/-- A value that holds a schema is plain: no object in it repeats a key, and it has no numbers. -/
theorem isPlain_of_readValue {j : Json} {s : Schema} (h : readValue j = .ok s) : j.IsPlain := by
  unfold readValue at h
  split at h
  · next d hd =>
    obtain ⟨entries, hentries, -⟩ := Except.bind_eq_ok_iff.mp h
    refine isPlain_of_membersAt hd hentries fun hj hb ↦ ?_
    obtain ⟨name, -, hb⟩ := Except.bind_eq_ok_iff.mp hb
    obtain ⟨ns, hns, -⟩ := Except.bind_eq_ok_iff.mp hb
    exact isPlain_of_namespaceAt hj hns
  · cases h

end Document

end PolicySchema
