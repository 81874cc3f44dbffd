import Mathlib.Data.List.Perm.Basic
import PolicySchema.Proofs.Document.Distinct

/-!
# The order of members means nothing

Members are read in key order, so a value without repeated keys holds the same schema, or has the
same error, as the value that has the members of each object in key order (`readValue_lastOfEach`).
Since a value that holds a schema repeats no key, reading a text and reading its value with the last
member of each key give the same schemas, except for those texts that repeat a key
(`readBytes_eq_ok_iff_readValue`).
-/

namespace PolicySchema

open Json

/-- The members have the same keys, which are different, in any order, and the values under them are
related. -/
def MembersAlike {α : Type} (r : α → α → Prop) (ms ms' : Members α) : Prop :=
  (ms.map Prod.fst).Nodup ∧
    ∃ sorted, List.Forall₂ (fun m m' ↦ m.1 = m'.1 ∧ r m.2 m'.2) ms sorted ∧ sorted.Perm ms'

/-- Both fields were given the same, except that the second has the members of each object in key
order. -/
inductive Slot.Sorts : Slot → Slot → Prop
  | missing : Sorts .missing .missing
  | cut : Sorts .cut .cut
  | given {value : Json} (h : value.DistinctKeys) : Sorts (.given value) (.given value.lastOfEach)

/-- What is read of a value without repeated keys stays the same, up to a relation, when the members
of each object are put in key order. -/
def Json.ReadsSorted {α : Type} (r : α → α → Prop) (read? : Json → Option α) : Prop :=
  ∀ j : Json, j.DistinctKeys → Option.Rel r (read? j) (read? j.lastOfEach)

/-! ### Fixed fields -/

section

variable {α : Type} {P : α → α → Prop} {slot slot' : Slot} {read? : Json → Option α}

private theorem rel_required (h : slot.Sorts slot') (hread : ReadsSorted P read?) :
    Option.Rel P (slot.required read?) (slot'.required read?) := by
  cases h with
  | missing => exact .none
  | cut => exact .none
  | given h => exact hread _ h

private theorem rel_optional (h : slot.Sorts slot') (hread : ReadsSorted P read?) :
    Option.Rel (Option.Rel P) (slot.optional read?) (slot'.optional read?) := by
  cases h with
  | missing => exact .some .none
  | cut => exact .none
  | @given value h =>
    cases value with
    | null => exact .some .none
    | _ => exact rel_map_map (hread _ h) fun _ _ ↦ .some

private theorem rel_orEmpty {R : List α → List α → Prop} {read? : Json → Option (List α)}
    (h : slot.Sorts slot') (hread : ReadsSorted R read?) (hnil : R [] []) :
    Option.Rel R (slot.orEmpty read?) (slot'.orEmpty read?) := by
  cases h with
  | missing => exact .some hnil
  | cut => exact .some hnil
  | given h => exact hread _ h

end

/-- No member of others has a key that none of them has. -/
theorem Json.member?_eq_none {key : String} : ∀ {members : List (String × Json)},
    key ∉ members.map Prod.fst → member? key members = none
  | [], _ => rfl
  | (k, v) :: rest, h => by
    rw [List.map_cons, List.mem_cons, not_or] at h
    rw [member?, if_neg h.1, member?_eq_none h.2]

private theorem sorts_slots_object {fields : List String} {members : List (String × Json)}
    (h : (object members).DistinctKeys) :
    Option.Rel (List.Forall₂ Slot.Sorts) (slots? fields (object members))
      (slots? fields (object members).lastOfEach) := by
  obtain ⟨hkeys, hmembers⟩ := h
  rw [distinctKeysMembers_iff] at hmembers
  obtain ⟨sorted, hsorted, hperm⟩ := exists_perm_of_lastOfEach hkeys
  have hkeysPerm : (sorted.map Prod.fst).Perm (members.map Prod.fst) := by
    simpa [List.map_map, Function.comp_def] using hperm.map Prod.fst
  have hsortedKeys := hkeysPerm.nodup_iff.mpr hkeys
  have hfields : (sorted.map Prod.fst).all fields.contains =
      (members.map Prod.fst).all fields.contains := hkeysPerm.all_eq
  have hnone : firstRepeated? [] (sorted.map Prod.fst) = none :=
    firstRepeated?_eq_none_iff.mpr ⟨hsortedKeys, by simp⟩
  have hnone' : firstRepeated? [] (members.map Prod.fst) = none :=
    firstRepeated?_eq_none_iff.mpr ⟨hkeys, by simp⟩
  rw [hsorted]
  simp only [slots?, hfields, hnone, hnone']
  split
  · refine .some (List.forall₂_map_left_iff.mpr (List.forall₂_map_right_iff.mpr ?_))
    refine List.forall₂_same.mpr fun field _ ↦ ?_
    -- The only member of a key is found wherever it stands.
    by_cases hfield : field ∈ members.map Prod.fst
    · obtain ⟨⟨key, value⟩, hmem, rfl⟩ := List.mem_map.mp hfield
      have hmem' : (key, value.lastOfEach) ∈ sorted :=
        hperm.mem_iff.mpr (List.mem_map_of_mem (f := fun m ↦ (m.1, m.2.lastOfEach)) hmem)
      rw [member?_eq_some hkeys hmem, member?_eq_some hsortedKeys hmem']
      exact .given (hmembers _ hmem)
    · rw [member?_eq_none hfield, member?_eq_none (hkeysPerm.mem_iff.not.mpr hfield)]
      exact .missing
  · exact .none

private theorem sorts_slots {fields : List String} {j : Json} (h : j.DistinctKeys) :
    Option.Rel (List.Forall₂ Slot.Sorts) (slots? fields j) (slots? fields j.lastOfEach) := by
  cases j with
  | array items =>
    have hitems := distinctKeysItems_iff.mp h
    simp only [slots?, lastOfEach, lastOfEachItems_eq, List.length_map]
    split
    · refine .some (List.rel_append ?_ (List.forall₂_same.mpr fun slot hslot ↦ ?_))
      · simp only [List.forall₂_map_left_iff, List.forall₂_map_right_iff]
        exact List.forall₂_same.mpr fun item hi ↦ .given (hitems item hi)
      · rw [List.eq_of_mem_replicate hslot]
        exact .cut
    · exact .none
  | object members => exact sorts_slots_object h
  | _ => exact .none

/-! ### Lists and chosen keys -/

section

variable {α β : Type} {P : β → β → Prop}

private theorem rel_mapM {f g : α → Option β} {l : List α}
    (h : ∀ a ∈ l, Option.Rel P (f a) (g a)) :
    Option.Rel (List.Forall₂ P) (l.mapM f) (l.mapM g) := by
  induction l with
  | nil => exact .some .nil
  | cons a l ih =>
    obtain ⟨ha, hl⟩ := List.forall_mem_cons.mp h
    rw [List.mapM_cons, List.mapM_cons]
    exact rel_bind ha fun _ _ hb ↦ rel_bind (ih hl) fun _ _ hbs ↦ .some (.cons hb hbs)

private theorem perm_mapM {f : α → Option β} {l l' : List α} (h : l.Perm l') :
    Option.Rel List.Perm (l.mapM f) (l'.mapM f) := by
  induction h with
  | nil => exact .some .nil
  | cons a _ ih =>
    rw [List.mapM_cons, List.mapM_cons]
    refine rel_bind (rel_refl (fun _ ↦ rfl) (f a)) ?_
    rintro b _ rfl
    exact rel_bind ih fun _ _ hbs ↦ .some (hbs.cons b)
  | swap a b l =>
    simp only [List.mapM_cons]
    cases f a with
    | none => cases f b <;> exact .none
    | some x =>
      cases f b with
      | none => exact .none
      | some y =>
        cases l.mapM f with
        | none => exact .none
        | some xs => exact .some (.swap x y xs)
  | trans _ _ ih ih' => exact rel_imp (rel_comp ih ih') fun _ _ ⟨_, h, h'⟩ ↦ h.trans h'

end

private theorem readsSorted_string? : ReadsSorted Eq string? := fun j _ ↦ by
  cases j <;> exact rel_refl (fun _ ↦ rfl) _

private theorem readsSorted_bool? : ReadsSorted Eq bool? := fun j _ ↦ by
  cases j <;> exact rel_refl (fun _ ↦ rfl) _

section

variable {α : Type} {P : α → α → Prop} {read? : Json → Option α}

private theorem readsSorted_list? (hread : ReadsSorted P read?) :
    ReadsSorted (List.Forall₂ P) (list? read?) := by
  intro j h
  cases j with
  | array items =>
    have hitems := distinctKeysItems_iff.mp h
    simp only [list?, lastOfEach, lastOfEachItems_eq, List.mapM_map]
    exact rel_mapM fun item hi ↦ hread item (hitems item hi)
  | _ => exact .none

private theorem readsSorted_members? (hread : ReadsSorted P read?) :
    ReadsSorted (MembersAlike P) (members? read?) := by
  intro j h
  cases j with
  | object members =>
    obtain ⟨hkeys, hmembers⟩ := h
    rw [distinctKeysMembers_iff] at hmembers
    obtain ⟨sorted, hsorted, hperm⟩ := exists_perm_of_lastOfEach hkeys
    have hread : Option.Rel (List.Forall₂ fun m m' ↦ m.1 = m'.1 ∧ P m.2 m'.2)
        (members.mapM fun m ↦ (read? m.2).map (m.1, ·))
        (members.mapM fun m ↦ (read? m.2.lastOfEach).map (m.1, ·)) :=
      rel_mapM fun m hm ↦ rel_map_map (hread m.2 (hmembers m hm)) fun _ _ hP ↦ ⟨rfl, hP⟩
    have hsort := perm_mapM (f := fun m ↦ (read? m.2).map (m.1, ·)) hperm.symm
    rw [List.mapM_map] at hsort
    have hboth := rel_comp hread hsort
    rw [hsorted]
    refine rel_of_exists (fun ms hms ↦ ?_) fun ms' hms' ↦ ?_
    · obtain ⟨_, ⟨⟩, hforall⟩ := members?_eq_some_iff.mp hms
      obtain ⟨ms', hms', hsame⟩ := exists_right_of_rel hboth hms
      rw [keys_eq_of_forall₂ hforall] at hkeys
      exact ⟨ms', hms', hkeys, hsame⟩
    · obtain ⟨ms, hms, -⟩ := exists_left_of_rel hboth hms'
      exact ⟨ms, hms⟩
  | _ => exact .none

end

/-! ### What is read of members -/

namespace Document

section

variable {α β : Type} {P : α → α → Prop} {ms ms' : Members α}

private theorem rel_lookup? (h : List.Forall₂ (fun m m' ↦ m.1 = m'.1 ∧ P m.2 m'.2) ms ms')
    (k : String) : Option.Rel P (Table.lookup? k ms) (Table.lookup? k ms') := by
  induction h with
  | nil => exact .none
  | @cons m m' rest rest' hm _ ih =>
    obtain ⟨j, v⟩ := m
    obtain ⟨_, v'⟩ := m'
    obtain ⟨rfl, hv⟩ := hm
    rw [Table.lookup?, Table.lookup?]
    split
    · exact .some hv
    · exact ih

private theorem membersAt_of_alike {read : Pointer → String → α → Except Error β}
    (h : MembersAlike P ms ms')
    (hread : ∀ path key a a', P a a' → read path key a' = read path key a) (path : Pointer) :
    membersAt path ms' read = membersAt path ms read := by
  obtain ⟨hkeys, sorted, hforall, hperm⟩ := h
  have hsorted : (sorted.map Prod.fst).Nodup := keys_eq_of_forall₂ hforall ▸ hkeys
  have hkeys' : (ms'.map Prod.fst).Nodup := (hperm.map Prod.fst).nodup_iff.mp hsorted
  have htable : Table.ofList ms' = Table.ofList sorted :=
    (Table.ofList_of_perm (hperm.trans (Table.perm_entries_ofList hkeys').symm)).symm
  have hentries : List.Forall₂ (fun e e' ↦ e.1 = e'.1 ∧ P e.2 e'.2) (Table.ofList ms).entries
      (Table.ofList sorted).entries := by
    refine forall₂_entries_of_rel fun k ↦ ?_
    rw [Table.find?_ofList hkeys, Table.find?_ofList hsorted]
    exact rel_lookup? hforall k
  have hdistinct {members : Members α} (h : (members.map Prod.fst).Nodup) :
      distinctMembers path members = .ok (Table.ofList members).entries := by
    rw [distinctMembers, firstRepeated?_eq_none_iff.mpr ⟨h, by simp⟩]
  rw [membersAt, membersAt, hdistinct hkeys, hdistinct hkeys', htable]
  simp only [bind, Except.bind]
  generalize (Table.ofList ms).entries = es, (Table.ofList sorted).entries = es' at hentries ⊢
  clear hdistinct htable
  -- Both tables have their entries in the order of the same keys.
  induction hentries with
  | nil => rfl
  | @cons e e' _ _ he _ ih =>
    obtain ⟨key, a⟩ := e
    obtain ⟨_, a'⟩ := e'
    obtain ⟨rfl, ha⟩ := he
    rw [List.mapM_cons, List.mapM_cons, ih]
    simp only [hread _ _ _ _ ha]

private theorem annotationsAt_of_alike {members members' : Members String}
    (h : MembersAlike Eq members members') (path : Pointer) :
    annotationsAt path members' = annotationsAt path members := by
  rw [annotationsAt, annotationsAt, membersAt_of_alike h fun _ _ _ _ ↦ congrArg _ ∘ Eq.symm]

private theorem alike_nil : MembersAlike P [] [] := ⟨.nil, [], .nil, .nil⟩

private theorem rel_annotations {slot slot' : Slot} (h : slot.Sorts slot') :
    Option.Rel (MembersAlike Eq) (slot.orEmpty (members? string?))
      (slot'.orEmpty (members? string?)) :=
  rel_orEmpty h (readsSorted_members? readsSorted_string?) alike_nil

private theorem isEmpty_of_alike (h : MembersAlike P ms ms') : ms'.isEmpty = ms.isEmpty := by
  obtain ⟨-, sorted, hforall, hperm⟩ := h
  rw [← hperm.isEmpty_eq]
  cases hforall <;> rfl

end

/-! ### Type objects -/

-- Wherever one of the type objects stands, the same is read of the other.
private structure Alike (o o' : TypeObject) : Prop where
  required : o'.required = o.required
  annotations : ∀ path, annotationsAt path o'.annotations = annotationsAt path o.annotations
  type : ∀ room place path, typeUpTo room place path o' = typeUpTo room place path o

section

variable {o o' : TypeObject}

private theorem attributeAt_of_alike {room : Nat} (h : Alike o o') (path : Pointer) (key : String) :
    attributeAt (typeUpTo room) path key o' = attributeAt (typeUpTo room) path key o := by
  simp only [attributeAt, h.required, h.annotations, h.type]

private theorem alike_of_fields (htype : o'.type = o.type) (hname : o'.name = o.name)
    (helement : Option.Rel Alike o.element o'.element)
    (hattributes : Option.Rel (MembersAlike Alike) o.attributes o'.attributes)
    (hrequired : o'.required = o.required)
    (hnotes : MembersAlike Eq o.annotations o'.annotations) : Alike o o' := by
  have hannotations := annotationsAt_of_alike hnotes
  have hvet (place : Place) (path : Pointer) :
      vetObject place path o' = vetObject place path o := by
    simp only [vetObject, givenFields, htype, hname, hrequired, isEmpty_of_alike hnotes,
      isSome_eq_of_rel helement, isSome_eq_of_rel hattributes]
  have hset (room : Nat) (path : Pointer) :
      setAt (typeUpTo room) path o' = setAt (typeUpTo room) path o := by
    unfold setAt
    generalize o.element = e, o'.element = e' at helement
    cases helement with
    | none => rfl
    | some h => simp only [h.type]
  have hrecord (room : Nat) (place : Place) (path : Pointer) :
      recordAt (typeUpTo room) place path o' = recordAt (typeUpTo room) place path o := by
    unfold recordAt
    generalize o.attributes = ms, o'.attributes = ms' at hattributes
    cases hattributes with
    | none => rw [htype]
    | some h =>
      simp only [membersAt_of_alike h fun path key _ _ h ↦ attributeAt_of_alike h path key,
        hannotations]
  have href (path : Pointer) : refAt path o' = refAt path o := by
    simp only [refAt, nameFieldAt, htype, hname]
  refine ⟨hrequired, hannotations, fun room place path ↦ ?_⟩
  cases room <;> simp only [typeUpTo, levelAt, hvet, htype, hset, hrecord, href]

private theorem readsSorted_ofJsonUpTo? (n : Nat) :
    ReadsSorted Alike (TypeObject.ofJsonUpTo? n) := by
  induction n with
  | zero => exact fun _ _ ↦ .none
  | succ n ih =>
    intro j h
    refine rel_bind (sorts_slots h) fun slots slots' hslots ↦ ?_
    rcases hslots with _ | ⟨htype, _ | ⟨helement, _ | ⟨hattributes, _ | ⟨hname, _ |
      ⟨hrequired, _ | ⟨hnotes, _ | _⟩⟩⟩⟩⟩⟩
    case cons.cons.cons.cons.cons.cons.nil =>
      refine rel_bind (rel_required htype readsSorted_string?) fun _ _ htype ↦ ?_
      refine rel_bind (rel_optional helement ih) fun _ _ helement ↦ ?_
      refine rel_bind (rel_optional hattributes (readsSorted_members? ih)) fun _ _ hattributes ↦ ?_
      refine rel_bind (rel_optional hname readsSorted_string?) fun _ _ hname ↦ ?_
      refine rel_bind (rel_optional hrequired readsSorted_bool?) fun _ _ hrequired ↦ ?_
      refine rel_bind (rel_annotations hnotes) fun _ _ hnotes ↦ ?_
      exact .some (alike_of_fields htype.symm (eq_of_rel hname).symm helement hattributes
        (eq_of_rel hrequired).symm hnotes)
    all_goals exact .none

private theorem readsSorted_typeObject : ReadsSorted Alike TypeObject.ofJson? := fun j h ↦ by
  rw [TypeObject.ofJson?, TypeObject.ofJson?, depth_lastOfEach h]
  exact readsSorted_ofJsonUpTo? _ j h

end

/-! ### Declarations -/

private theorem readsSorted_list {α : Type} {read? : Json → Option α}
    (hread : ReadsSorted Eq read?) : ReadsSorted Eq (list? read?) := fun j h ↦
  rel_imp (readsSorted_list? hread j h) fun as as' h ↦ by rwa [List.forall₂_eq_eq_eq] at h

private theorem optionalTypeAt_of_alike {o o' : Option TypeObject} (h : Option.Rel Alike o o')
    (path : Pointer) (key : String) : optionalTypeAt path key o' = optionalTypeAt path key o := by
  cases h with
  | none => rfl
  | some h => simp only [optionalTypeAt, typeAt, h.type]

private def ReadAlike {α β : Type} (read : Pointer → String → α → Except Error β) (a a' : α) :
    Prop :=
  ∀ path key, read path key a' = read path key a

private theorem readsSorted_entityType :
    ReadsSorted (ReadAlike entityTypeAt) EntityTypeObject.ofJson? := by
  intro j h
  refine rel_bind (sorts_slots h) fun slots slots' hslots ↦ ?_
  rcases hslots with _ | ⟨hmemberOf, _ | ⟨hshape, _ | ⟨htags, _ | ⟨hvalues, _ |
    ⟨hnotes, _ | _⟩⟩⟩⟩⟩
  case cons.cons.cons.cons.cons.nil =>
    have hstrings := readsSorted_list readsSorted_string?
    refine rel_bind (rel_optional hmemberOf hstrings) fun _ _ hmemberOf ↦ ?_
    refine rel_bind (rel_optional hshape readsSorted_typeObject) fun _ _ hshape ↦ ?_
    refine rel_bind (rel_optional htags readsSorted_typeObject) fun _ _ htags ↦ ?_
    refine rel_bind (rel_optional hvalues hstrings) fun _ _ hvalues ↦ ?_
    refine rel_bind (rel_annotations hnotes) fun _ _ hnotes ↦ ?_
    obtain rfl := eq_of_rel hmemberOf
    obtain rfl := eq_of_rel hvalues
    refine .some fun path key ↦ ?_
    simp only [entityTypeAt, entityBodyAt, conflictingField?, shapeAt,
      annotationsAt_of_alike hnotes, optionalTypeAt_of_alike hshape, optionalTypeAt_of_alike htags,
      isSome_eq_of_rel hshape, isSome_eq_of_rel htags]
  all_goals exact .none

private theorem readsSorted_actionRef : ReadsSorted Eq ActionRefObject.ofJson? := by
  intro j h
  refine rel_bind (sorts_slots h) fun slots slots' hslots ↦ ?_
  rcases hslots with _ | ⟨htype, _ | ⟨hid, _ | _⟩⟩
  case cons.cons.nil =>
    refine rel_bind (rel_optional htype readsSorted_string?) fun _ _ htype ↦ ?_
    refine rel_bind (rel_required hid readsSorted_string?) fun _ _ hid ↦ ?_
    rw [eq_of_rel htype, hid]
    exact .some rfl
  all_goals exact .none

private theorem readsSorted_appliesTo :
    ReadsSorted (fun o o' ↦ ∀ path, appliesToAt path (some o') = appliesToAt path (some o))
      AppliesToObject.ofJson? := by
  intro j h
  refine rel_bind (sorts_slots h) fun slots slots' hslots ↦ ?_
  rcases hslots with _ | ⟨hprincipals, _ | ⟨hresources, _ | ⟨hcontext, _ | _⟩⟩⟩
  case cons.cons.cons.nil =>
    have hstrings := readsSorted_list readsSorted_string?
    refine rel_bind (rel_optional hprincipals hstrings) fun _ _ hprincipals ↦ ?_
    refine rel_bind (rel_optional hresources hstrings) fun _ _ hresources ↦ ?_
    refine rel_bind (rel_optional hcontext readsSorted_typeObject) fun _ _ hcontext ↦ ?_
    obtain rfl := eq_of_rel hprincipals
    obtain rfl := eq_of_rel hresources
    refine .some fun path ↦ ?_
    simp only [appliesToAt, optionalTypeAt_of_alike hcontext]
  all_goals exact .none

private theorem readsSorted_action : ReadsSorted (ReadAlike actionAt) ActionObject.ofJson? := by
  intro j h
  refine rel_bind (sorts_slots h) fun slots slots' hslots ↦ ?_
  rcases hslots with _ | ⟨hmemberOf, _ | ⟨happlies, _ | ⟨hnotes, _ | _⟩⟩⟩
  case cons.cons.cons.nil =>
    refine rel_bind (rel_optional hmemberOf (readsSorted_list readsSorted_actionRef))
      fun _ _ hmemberOf ↦ ?_
    refine rel_bind (rel_optional happlies readsSorted_appliesTo) fun a a' happlies ↦ ?_
    refine rel_bind (rel_annotations hnotes) fun _ _ hnotes ↦ ?_
    obtain rfl := eq_of_rel hmemberOf
    have hblock (path : Pointer) : appliesToAt path a' = appliesToAt path a := by
      cases happlies with
      | none => rfl
      | some h => exact h path
    refine .some fun path key ↦ ?_
    simp only [actionAt, hblock, annotationsAt_of_alike hnotes]
  all_goals exact .none

/-! ### Schemas -/

private theorem readsSorted_namespace :
    ReadsSorted (ReadAlike entryAt) NamespaceObject.ofJson? := by
  intro j h
  refine rel_bind (sorts_slots h) fun slots slots' hslots ↦ ?_
  rcases hslots with _ | ⟨hnotes, _ | ⟨hcommon, _ | ⟨hentity, _ | ⟨haction, _ | _⟩⟩⟩⟩
  case cons.cons.cons.cons.nil =>
    refine rel_bind (rel_annotations hnotes) fun _ _ hnotes ↦ ?_
    refine rel_bind (rel_orEmpty hcommon (readsSorted_members? readsSorted_typeObject) alike_nil)
      fun _ _ hcommon ↦ ?_
    refine rel_bind (rel_required hentity (readsSorted_members? readsSorted_entityType))
      fun _ _ hentity ↦ ?_
    refine rel_bind (rel_required haction (readsSorted_members? readsSorted_action))
      fun _ _ haction ↦ ?_
    have hcommonTypeAt (path : Pointer) (key : String) (o o' : TypeObject) (h : Alike o o') :
        commonTypeAt path key o' = commonTypeAt path key o := by
      simp only [commonTypeAt, typeAt, h.annotations, h.type]
    refine .some fun path key ↦ ?_
    simp only [entryAt, namespaceAt, annotationsAt_of_alike hnotes,
      membersAt_of_alike hcommon hcommonTypeAt,
      membersAt_of_alike hentity fun path key _ _ h ↦ h path key,
      membersAt_of_alike haction fun path key _ _ h ↦ h path key]
  all_goals exact .none

/-- A value without repeated keys holds the same schema, or has the same error, when the members of
each object are put in key order. -/
theorem readValue_lastOfEach {j : Json} (h : j.DistinctKeys) :
    readValue j.lastOfEach = readValue j := by
  have hrel := readsSorted_members? readsSorted_namespace j h
  unfold readValue Document.ofJson?
  generalize members? NamespaceObject.ofJson? j = d,
    members? NamespaceObject.ofJson? j.lastOfEach = d' at hrel
  cases hrel with
  | none => rfl
  | some h => simp only [toSchema, membersAt_of_alike h fun path key _ _ h ↦ h path key]

/-- A schema is read from bytes exactly if they are a JSON text in which no object repeats a key and
the value of the text, in which the last member of each key counts, holds the schema. -/
theorem readBytes_eq_ok_iff_readValue {bytes : List UInt8} {s : Schema} :
    readBytes bytes = .ok s ↔ ∃ text j v, Unicode.Utf8.decode? bytes = some text ∧
      Json.read? text = some j ∧ j.DistinctKeys ∧ plainValue? text = some v ∧
        readValue v = .ok s := by
  constructor
  · intro h
    unfold readBytes at h
    split at h
    · next text htext =>
      unfold read at h
      split at h
      · next j hj =>
        have hplain := isPlain_of_readValue h
        refine ⟨text, j, j.lastOfEach, htext, hj, hplain.distinctKeys, ?_, ?_⟩
        · rw [plainValue?, hj]
          exact if_pos (allNumbers_of_hasNoNumbers hplain.noNumbers)
        · rw [readValue_lastOfEach hplain.distinctKeys, h]
      · cases h
    · cases h
  · rintro ⟨text, j, v, htext, hj, hkeys, hv, hs⟩
    have hlast : j.lastOfEach = v := by
      rw [plainValue?, hj] at hv
      exact Option.some.inj (Option.ite_none_right_eq_some.mp hv).2
    subst hlast
    rw [readValue_lastOfEach hkeys] at hs
    simp only [readBytes, htext, read, hj, hs]

end Document

end PolicySchema
