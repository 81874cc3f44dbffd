import PolicySchema.Proofs.Document.Distinct
import PolicySchema.Proofs.Document.Loaded
import PolicySchema.Proofs.Document.NamedFields

/-!
# Errors in a document lead to a value in it

The path of an error is put together key by key on the way down to where it is noticed. If the
values with fixed fields are all written with the names of their fields, the keys lead from the root
of the document to a value in it, through objects that repeat no key. A key that is reported as
repeated is so in the object that the path leads to (`leads_of_readBytes`).
-/

namespace PolicySchema

open Json

/-! ### Following keys -/

namespace Json

/-- The keys lead from a value to a value in it. A key leads to the member of an object that repeats
no key, and to the item of an array whose index it is in decimal digits. -/
inductive Leads : Json → List String → Json → Prop where
  | here (j : Json) : Leads j [] j
  | member {members : List (String × Json)} {key : String} {value target : Json}
      {keys : List String} (hkeys : (members.map Prod.fst).Nodup) (hmem : (key, value) ∈ members)
      (h : Leads value keys target) : Leads (object members) (key :: keys) target
  | item {items : List Json} {i : Nat} {item target : Json} {keys : List String}
      (hitem : items[i]? = some item) (h : Leads item keys target) :
      Leads (array items) (toString i :: keys) target

/-- The value is an object in which a key occurs more than once. -/
def Repeats (key : String) (j : Json) : Prop :=
  ∃ members, j = object members ∧ 1 < (members.map Prod.fst).count key

end Json

namespace Document

-- The path of an error goes on from a path to a value in the value there. A key that is said to be
-- repeated is repeated in it.
private def Addressed (path : Pointer) (j : Json) (e : Error) : Prop :=
  ∃ keys target, e.path.keys = path.keys ++ keys ∧ Leads j keys target ∧
    ∀ key, e.cause = .duplicateKey key → Repeats key target

private def IsAt (path : Pointer) (e : Error) : Prop :=
  e.path = path ∧ ∀ key, e.cause ≠ .duplicateKey key

section

variable {path : Pointer} {e : Error} {members : List (String × Json)} {key : String}
  {value : Json}

private theorem isAt_of_failAt {α : Type} {cause : Cause}
    (h : (failAt path cause : Except Error α) = .error e)
    (hcause : ∀ key, cause ≠ .duplicateKey key) : IsAt path e := by
  cases h
  exact ⟨rfl, hcause⟩

private theorem IsAt.addressed (h : IsAt path e) (j : Json) : Addressed path j e :=
  ⟨[], j, by rw [h.1, List.append_nil], .here j, fun key hkey ↦ absurd hkey (h.2 key)⟩

private theorem addressed_member (hkeys : (members.map Prod.fst).Nodup)
    (hmem : (key, value) ∈ members) (h : Addressed (path.child key) value e) :
    Addressed path (object members) e := by
  obtain ⟨keys, target, hpath, hleads, hrepeats⟩ := h
  refine ⟨key :: keys, target, ?_, .member hkeys hmem hleads, hrepeats⟩
  rw [hpath, Pointer.child, List.append_assoc, List.singleton_append]

private theorem addressed_item {items : List Json} {i : Nat} (hitem : items[i]? = some value)
    (h : Addressed (path.child (toString i)) value e) : Addressed path (array items) e := by
  obtain ⟨keys, target, hpath, hleads, hrepeats⟩ := h
  refine ⟨toString i :: keys, target, ?_, .item hitem hleads, hrepeats⟩
  rw [hpath, Pointer.child, List.append_assoc, List.singleton_append]

private theorem addressed_of_gives {α : Type} {s : Struct} {read? : Json → Option α} {a : α}
    (hkeys : (members.map Prod.fst).Nodup) (hgives : Gives s members key read? a)
    (h : ∀ v, v.namesFields (s.field key) = true → read? v = some a →
      Addressed (path.child key) v e) :
    Addressed path (object members) e := by
  obtain ⟨v, hmem, hnames, hread⟩ := hgives
  exact addressed_member hkeys hmem (h v hnames hread)

/-! ### Lists and chosen keys -/

private theorem count_of_firstRepeated? {texts : List String} : ∀ {seen : List String},
    firstRepeated? seen texts = some key → key ∈ texts ∧ (key ∈ seen ∨ 1 < texts.count key) := by
  induction texts with
  | nil => exact nofun
  | cons text rest ih =>
    intro seen h
    rw [firstRepeated?] at h
    split at h
    · next hseen =>
      cases h
      exact ⟨List.mem_cons_self, .inl (List.contains_iff_mem.mp hseen)⟩
    · obtain ⟨hmem, hcount⟩ := ih h
      refine ⟨List.mem_cons_of_mem _ hmem, ?_⟩
      have hpos := List.count_pos_iff.mpr hmem
      rw [List.mem_cons, List.count_cons] at *
      rcases hcount with (rfl | hseen) | hcount
      · exact .inr (by simpa using hpos)
      · exact .inl hseen
      · exact .inr (Nat.lt_add_right _ hcount)

private theorem exists_of_mapM_eq_error {α β : Type} {f : α → Except Error β} :
    ∀ {l : List α}, l.mapM f = .error e → ∃ a ∈ l, f a = .error e
  | [], h => by cases h
  | a :: l, h => by
    rw [List.mapM_cons] at h
    rcases Except.bind_eq_error_iff.mp h with ha | ⟨b, -, h⟩
    · exact ⟨a, List.mem_cons_self, ha⟩
    · rcases Except.bind_eq_error_iff.mp h with hl | ⟨bs, -, h⟩
      · obtain ⟨b, hb, hf⟩ := exists_of_mapM_eq_error hl
        exact ⟨b, List.mem_cons_of_mem _ hb, hf⟩
      · cases h

-- Keys are compared before any member is read, so members are only read of an object that repeats
-- no key.
private theorem addressed_membersAt {α β : Type} {read? : Json → Option α} {ms : Members α}
    {read : Pointer → String → α → Except Error β}
    (hms : List.Forall₂ (fun m a ↦ m.1 = a.1 ∧ read? m.2 = some a.2) members ms)
    (h : membersAt path ms read = .error e)
    (hread : ∀ m ∈ members, ∀ path a, read? m.2 = some a → read path m.1 a = .error e →
      Addressed path m.2 e) :
    Addressed path (object members) e := by
  have hkeys := keys_eq_of_forall₂ hms
  rcases Except.bind_eq_error_iff.mp h with h | ⟨entries, hentries, h⟩
  · unfold distinctMembers at h
    split at h
    · next key hrepeated =>
      cases h
      refine ⟨[], object members, (List.append_nil _).symm, .here _, ?_⟩
      rintro _ ⟨⟩
      rw [← hkeys] at hrepeated
      obtain ⟨-, hseen | hcount⟩ := count_of_firstRepeated? hrepeated
      · cases hseen
      · exact ⟨members, rfl, hcount⟩
    · cases h
  · unfold distinctMembers at hentries
    split at hentries
    · cases hentries
    · next hnone =>
      cases hentries
      have hnodup := (firstRepeated?_eq_none_iff.mp hnone).1
      rw [← hkeys] at hnodup
      obtain ⟨⟨key, a⟩, hentry, herror⟩ := exists_of_mapM_eq_error h
      obtain ⟨m, hm, rfl, hvalue⟩ :=
        exists_left_of_forall₂ hms (Table.mem_of_mem_ofList hentry)
      exact addressed_member hnodup hm (hread m hm _ _ hvalue herror)

private theorem addressed_itemsAt {α β : Type} {read? : Json → Option α} {as : List α}
    {read : Pointer → α → Except Error β} {items : List Json}
    (hitems : List.Forall₂ (fun item a ↦ read? item = some a) items as) :
    ∀ before : List Json, itemsAt path read before.length as = .error e →
      (∀ item ∈ items, ∀ path a, read? item = some a → read path a = .error e →
        Addressed path item e) →
      Addressed path (array (before ++ items)) e := by
  induction hitems with
  | nil =>
    intro before h
    cases h
  | @cons item a items as hitem _ ih =>
    intro before h hread
    rw [List.forall_mem_cons] at hread
    rcases Except.bind_eq_error_iff.mp h with h | ⟨b, -, h⟩
    · have hat : (before ++ item :: items)[before.length]? = some item := by simp
      exact addressed_item hat (hread.1 _ _ hitem h)
    · rcases Except.bind_eq_error_iff.mp h with h | ⟨bs, -, h⟩
      · have hmore := ih (before ++ [item]) (by simpa using h) hread.2
        simpa using hmore
      · cases h

end

/-! ### Names and annotations -/

section

variable {path : Pointer} {e : Error} {s : Struct} {members : List (String × Json)} {key : String}

private theorem isAt_of_identifierAt {text : String} (h : identifierAt path text = .error e) :
    IsAt path e := by
  unfold identifierAt at h
  split at h
  · cases h
  · exact isAt_of_failAt h nofun

private theorem isAt_of_nameAt {text : String} (h : nameAt path text = .error e) :
    IsAt path e := by
  unfold nameAt at h
  split at h
  · cases h
  · exact isAt_of_failAt h nofun

private theorem addressed_text {text : String} (hkeys : (members.map Prod.fst).Nodup)
    (hgives : Gives s members key string? text) (h : IsAt (path.child key) e) :
    Addressed path (object members) e :=
  addressed_of_gives hkeys hgives fun v _ _ ↦ h.addressed v

private theorem addressed_annotationsAt {notes : Members String}
    (hkeys : (members.map Prod.fst).Nodup)
    (hgives : notes = [] ∨ Gives s members "annotations" (members? string?) notes)
    (h : annotationsAt path notes = .error e) : Addressed path (object members) e := by
  rcases Except.bind_eq_error_iff.mp h with h | ⟨entries, -, h⟩
  · rcases hgives with rfl | hgives
    · cases h
    · refine addressed_of_gives hkeys hgives fun v _ hv ↦ ?_
      obtain ⟨raw, rfl, hraw⟩ := members?_eq_some_iff.mp hv
      refine addressed_membersAt hraw h fun m _ path a _ herror ↦ ?_
      rcases Except.bind_eq_error_iff.mp herror with herror | ⟨id, -, herror⟩
      · exact (isAt_of_identifierAt herror).addressed m.2
      · cases herror
  · cases h

private theorem addressed_namesAt {names : Option (List String)}
    (hkeys : (members.map Prod.fst).Nodup)
    (hgives : ∀ texts ∈ names, Gives s members key (list? string?) texts)
    (h : namesAt (path.child key) names = .error e) : Addressed path (object members) e := by
  cases names with
  | none => cases h
  | some texts =>
    refine addressed_of_gives hkeys (hgives texts rfl) fun v _ hv ↦ ?_
    obtain ⟨items, rfl, hitems⟩ := list?_eq_some_iff.mp hv
    exact addressed_itemsAt hitems [] h fun item _ _ _ _ herror ↦
      (isAt_of_nameAt herror).addressed item

end

/-! ### Type objects -/

-- What is known of an object from which a type object is made.
private structure TypeFields (n : Nat) (members : List (String × Json)) (o : TypeObject) :
    Prop where
  keys : (members.map Prod.fst).Nodup
  type : Gives .typeObject members "type" string? o.type
  element : ∀ e ∈ o.element, Gives .typeObject members "element" (TypeObject.ofJsonUpTo? n) e
  attributes : ∀ ms ∈ o.attributes,
    Gives .typeObject members "attributes" (members? (TypeObject.ofJsonUpTo? n)) ms
  name : ∀ name ∈ o.name, Gives .typeObject members "name" string? name
  annotations : o.annotations = [] ∨
    Gives .typeObject members "annotations" (members? string?) o.annotations

private theorem exists_typeFields {n : Nat} {j : Json} {o : TypeObject}
    (h : TypeObject.ofJsonUpTo? n j = some o) (hj : j.namesFields (.struct .typeObject) = true) :
    ∃ inner members, n = inner + 1 ∧ j = object members ∧ TypeFields inner members o := by
  cases n with
  | zero => cases h
  | succ n =>
    obtain ⟨members, rfl, hkeys, hfields, h⟩ := exists_object_of_slots? h hj
    simp only [List.map_cons, List.map_nil, Option.bind_eq_bind, Option.bind_eq_some_iff,
      Option.pure_def, Option.some.injEq] at h
    obtain ⟨_, htype, _, helement, _, hattributes, _, hname, _, -, _, hnotes, rfl⟩ := h
    exact ⟨n, members, rfl, rfl, {
      keys := hkeys
      type := gives_of_required hfields htype
      element := gives_of_optional hfields helement
      attributes := gives_of_optional hfields hattributes
      name := gives_of_optional hfields hname
      annotations := gives_of_orEmpty hfields hnotes }⟩

section

variable {n : Nat} {path : Pointer} {place : Place} {e : Error} {o : TypeObject}
  {members : List (String × Json)}

private def Leading (n : Nat) (read : TypeReader) : Prop :=
  ∀ place path j o e, TypeObject.ofJsonUpTo? n j = some o →
    j.namesFields (.struct .typeObject) = true → read place path o = .error e → Addressed path j e

private theorem isAt_of_vetObject (h : vetObject place path o = .error e) : IsAt path e := by
  unfold vetObject at h
  split at h
  · exact isAt_of_failAt h nofun
  · split at h
    · exact isAt_of_failAt h nofun
    · split at h
      · exact isAt_of_failAt h nofun
      · cases h

private theorem isAt_of_nameFieldAt (h : nameFieldAt path o = .error e) : IsAt path e := by
  unfold nameFieldAt at h
  split at h
  · exact isAt_of_failAt h nofun
  · cases h

private theorem addressed_named {α : Type} (hfields : TypeFields n members o)
    {read : String → Except Error α} (h : (nameFieldAt path o >>= read) = .error e)
    (hread : ∀ name, read name = .error e → IsAt (path.child "name") e) :
    Addressed path (object members) e := by
  rcases Except.bind_eq_error_iff.mp h with h | ⟨name, hname, h⟩
  · exact (isAt_of_nameFieldAt h).addressed _
  · unfold nameFieldAt at hname
    split at hname
    · cases hname
    · next hsome =>
      cases hname
      exact addressed_text hfields.keys (hfields.name _ hsome) (hread _ h)

private theorem addressed_refAt (hfields : TypeFields n members o)
    (h : refAt path o = .error e) : Addressed path (object members) e := by
  unfold refAt at h
  split at h
  · refine addressed_named hfields h fun name h ↦ isAt_of_nameAt (Except.map_eq_error_iff.mp h)
  · split at h
    · refine addressed_named hfields h fun name h ↦ isAt_of_nameAt (Except.map_eq_error_iff.mp h)
    · split at h
      · refine addressed_named hfields h fun name h ↦ ?_
        split at h
        · exact isAt_of_identifierAt (Except.map_eq_error_iff.mp h)
        · exact isAt_of_failAt h nofun
      · split at h
        · cases h
        · exact addressed_text hfields.keys hfields.type
            (isAt_of_nameAt (Except.map_eq_error_iff.mp h))

private theorem addressed_setAt {inner : TypeReader} (hinner : Leading n inner)
    (hfields : TypeFields n members o) (h : setAt inner path o = .error e) :
    Addressed path (object members) e := by
  unfold setAt at h
  split at h
  · exact (isAt_of_failAt h nofun).addressed _
  · next element helement =>
    rcases Except.bind_eq_error_iff.mp h with h | ⟨t, -, h⟩
    · exact addressed_of_gives hfields.keys (hfields.element _ helement) fun v hnames hv ↦
        hinner _ _ _ _ _ hv hnames h
    · cases h

-- The annotations of a type object are read as those of the attribute or the common type whose
-- value it is.
private theorem addressed_annotations_typeObject {j : Json}
    (hj : TypeObject.ofJsonUpTo? n j = some o)
    (hnames : j.namesFields (.struct .typeObject) = true)
    (h : annotationsAt path o.annotations = .error e) : Addressed path j e := by
  obtain ⟨n, members, rfl, rfl, hfields⟩ := exists_typeFields hj hnames
  exact addressed_annotationsAt hfields.keys hfields.annotations h

private theorem addressed_recordAt {inner : TypeReader} (hinner : Leading n inner)
    (hfields : TypeFields n members o) (h : recordAt inner place path o = .error e) :
    Addressed path (object members) e := by
  unfold recordAt at h
  split at h
  · exact (isAt_of_failAt h nofun).addressed _
  · next ms hattributes =>
    rcases Except.bind_eq_error_iff.mp h with h | ⟨fields, -, h⟩
    · refine addressed_of_gives hfields.keys (hfields.attributes _ hattributes) fun v hnames hv ↦ ?_
      obtain ⟨raw, rfl, hraw⟩ := members?_eq_some_iff.mp hv
      refine addressed_membersAt hraw h fun m hm path o hvalue herror ↦ ?_
      have hstruct := membersNameFields_iff.mp hnames m hm
      rcases Except.bind_eq_error_iff.mp herror with herror | ⟨notes, -, herror⟩
      · exact addressed_annotations_typeObject hvalue hstruct herror
      · rcases Except.bind_eq_error_iff.mp herror with herror | ⟨t, -, herror⟩
        · exact hinner _ _ _ _ _ hvalue hstruct herror
        · cases herror
    · dsimp only at h
      split at h
      · cases h
      · rcases Except.bind_eq_error_iff.mp h with h | ⟨notes, -, h⟩
        · exact addressed_annotationsAt hfields.keys hfields.annotations h
        · cases h

private theorem addressed_levelAt {inner? : Option TypeReader}
    (hinner : ∀ inner ∈ inner?, Leading n inner) (hfields : TypeFields n members o)
    (h : levelAt inner? place path o = .error e) : Addressed path (object members) e := by
  rcases Except.bind_eq_error_iff.mp h with h | ⟨_, -, h⟩
  · exact (isAt_of_vetObject h).addressed _
  · split at h
    · split at h
      · exact (isAt_of_failAt h (by rintro _ ⟨⟩)).addressed _
      · next inner =>
        split at h
        · exact addressed_setAt (hinner _ rfl) hfields h
        · exact addressed_recordAt (hinner _ rfl) hfields h
    · exact addressed_refAt hfields (Except.map_eq_error_iff.mp h)

private theorem leading_typeUpTo (n : Nat) : ∀ room, Leading n (typeUpTo room) := by
  -- On the depth of the value, since the reader may stop before it does.
  induction n with
  | zero =>
    rintro room place path j o e ⟨⟩
  | succ n ih =>
    intro room place path j o e hj hnames h
    obtain ⟨_, members, ⟨⟩, rfl, hfields⟩ := exists_typeFields hj hnames
    cases room with
    | zero => exact addressed_levelAt (by rintro _ ⟨⟩) hfields h
    | succ room =>
      refine addressed_levelAt ?_ hfields h
      rintro _ ⟨⟩
      exact ih room

private theorem addressed_optionalTypeAt {s : Struct} {key : String} {o : Option TypeObject}
    (hkeys : (members.map Prod.fst).Nodup)
    (hgives : ∀ t ∈ o, Gives s members key TypeObject.ofJson? t)
    (hfield : s.field key = .struct .typeObject) (h : optionalTypeAt path key o = .error e) :
    Addressed path (object members) e := by
  cases o with
  | none => cases h
  | some o =>
    refine addressed_of_gives hkeys (hgives o rfl) fun v hnames hv ↦ ?_
    rw [hfield] at hnames
    exact leading_typeUpTo _ _ _ _ _ _ _ hv hnames (Except.map_eq_error_iff.mp h)

end

/-! ### Declarations -/

section

variable {path : Pointer} {e : Error} {j : Json} {key : String}

private theorem isAt_of_enumAt {values : List String} (h : enumAt path values = .error e) :
    IsAt path e := by
  unfold enumAt at h
  split at h
  · exact isAt_of_failAt h nofun
  · split at h
    · exact isAt_of_failAt h nofun
    · cases h

private theorem addressed_shapeAt {s : Struct} {members : List (String × Json)}
    {o : Option TypeObject} (hkeys : (members.map Prod.fst).Nodup)
    (hgives : ∀ t ∈ o, Gives s members "shape" TypeObject.ofJson? t)
    (hfield : s.field "shape" = .struct .typeObject) (h : shapeAt path o = .error e) :
    Addressed path (object members) e := by
  rcases Except.bind_eq_error_iff.mp h with h | ⟨t, ht, hrecord⟩
  · exact addressed_optionalTypeAt hkeys hgives hfield h
  · cases o with
    | none =>
      cases ht
      cases hrecord
    | some o =>
      refine addressed_of_gives hkeys (hgives o rfl) fun v _ _ ↦ ?_
      split at hrecord
      · cases hrecord
      · split at hrecord
        · cases hrecord
        · exact (isAt_of_failAt hrecord nofun).addressed v

private theorem addressed_entityTypeAt {o : EntityTypeObject}
    (hj : EntityTypeObject.ofJson? j = some o) (hnames : j.namesFields (.struct .entityType) = true)
    (h : entityTypeAt path key o = .error e) : Addressed path j e := by
  obtain ⟨members, rfl, hkeys, hfields, hj⟩ := exists_object_of_slots? hj hnames
  simp only [List.map_cons, List.map_nil, Option.bind_eq_bind, Option.bind_eq_some_iff,
    Option.pure_def, Option.some.injEq] at hj
  obtain ⟨_, hmemberOf, _, hshape, _, htags, _, hvalues, _, hnotes, rfl⟩ := hj
  rcases Except.bind_eq_error_iff.mp h with h | ⟨id, -, h⟩
  · exact (isAt_of_identifierAt h).addressed _
  rcases Except.bind_eq_error_iff.mp h with h | ⟨notes, -, h⟩
  · exact addressed_annotationsAt hkeys (gives_of_orEmpty hfields hnotes) h
  rcases Except.bind_eq_error_iff.mp h with h | ⟨body, -, h⟩
  · unfold entityBodyAt at h
    split at h
    · next values hsome =>
      split at h
      · exact (isAt_of_failAt h nofun).addressed _
      · exact addressed_of_gives hkeys (gives_of_optional hfields hvalues values hsome)
          fun v _ _ ↦ (isAt_of_enumAt h).addressed v
    · rcases Except.bind_eq_error_iff.mp h with h | ⟨memberOf, -, h⟩
      · exact addressed_namesAt hkeys (gives_of_optional hfields hmemberOf) h
      rcases Except.bind_eq_error_iff.mp h with h | ⟨shape, -, h⟩
      · exact addressed_shapeAt hkeys (gives_of_optional hfields hshape) rfl h
      rcases Except.bind_eq_error_iff.mp h with h | ⟨tags, -, h⟩
      · exact addressed_optionalTypeAt hkeys (gives_of_optional hfields htags) rfl h
      · cases h
  · cases h

private theorem addressed_actionRefAt {o : ActionRefObject}
    (hj : ActionRefObject.ofJson? j = some o) (hnames : j.namesFields (.struct .actionRef) = true)
    (h : actionRefAt path o = .error e) : Addressed path j e := by
  obtain ⟨members, rfl, hkeys, hfields, hj⟩ := exists_object_of_slots? hj hnames
  simp only [List.map_cons, List.map_nil, Option.bind_eq_bind, Option.bind_eq_some_iff,
    Option.pure_def, Option.some.injEq] at hj
  obtain ⟨_, htype, _, -, rfl⟩ := hj
  unfold actionRefAt at h
  split at h
  · cases h
  · next type hsome =>
    rcases Except.bind_eq_error_iff.mp h with h | ⟨n, -, h⟩
    · exact addressed_text hkeys (gives_of_optional hfields htype type hsome) (isAt_of_nameAt h)
    · cases h

private theorem addressed_appliesToAt {o : AppliesToObject}
    (hj : AppliesToObject.ofJson? j = some o) (hnames : j.namesFields (.struct .appliesTo) = true)
    (h : appliesToAt path (some o) = .error e) : Addressed path j e := by
  obtain ⟨members, rfl, hkeys, hfields, hj⟩ := exists_object_of_slots? hj hnames
  simp only [List.map_cons, List.map_nil, Option.bind_eq_bind, Option.bind_eq_some_iff,
    Option.pure_def, Option.some.injEq] at hj
  obtain ⟨_, hprincipals, _, hresources, _, hcontext, rfl⟩ := hj
  rcases Except.bind_eq_error_iff.mp h with h | ⟨principals, -, h⟩
  · exact addressed_namesAt hkeys (gives_of_optional hfields hprincipals) h
  rcases Except.bind_eq_error_iff.mp h with h | ⟨resources, -, h⟩
  · exact addressed_namesAt hkeys (gives_of_optional hfields hresources) h
  rcases Except.bind_eq_error_iff.mp h with h | ⟨context, -, h⟩
  · exact addressed_optionalTypeAt hkeys (gives_of_optional hfields hcontext) rfl h
  · cases h

private theorem addressed_actionAt {o : ActionObject} (hj : ActionObject.ofJson? j = some o)
    (hnames : j.namesFields (.struct .action) = true) (h : actionAt path key o = .error e) :
    Addressed path j e := by
  obtain ⟨members, rfl, hkeys, hfields, hj⟩ := exists_object_of_slots? hj hnames
  simp only [List.map_cons, List.map_nil, Option.bind_eq_bind, Option.bind_eq_some_iff,
    Option.pure_def, Option.some.injEq] at hj
  obtain ⟨memberOf, hmemberOf, appliesTo, happlies, _, hnotes, rfl⟩ := hj
  rcases Except.bind_eq_error_iff.mp h with h | ⟨refs, -, h⟩
  · cases memberOf with
    | none => cases h
    | some refs =>
      refine addressed_of_gives hkeys (gives_of_optional hfields hmemberOf refs rfl)
        fun v hnames hv ↦ ?_
      obtain ⟨items, rfl, hitems⟩ := list?_eq_some_iff.mp hv
      refine addressed_itemsAt hitems [] h fun item hi _ _ hitem herror ↦ ?_
      exact addressed_actionRefAt hitem (itemsNameFields_iff.mp hnames item hi) herror
  rcases Except.bind_eq_error_iff.mp h with h | ⟨block, -, h⟩
  · cases appliesTo with
    | none => cases h
    | some block =>
      exact addressed_of_gives hkeys (gives_of_optional hfields happlies block rfl)
        fun v hnames hv ↦ addressed_appliesToAt hv hnames h
  rcases Except.bind_eq_error_iff.mp h with h | ⟨notes, -, h⟩
  · exact addressed_annotationsAt hkeys (gives_of_orEmpty hfields hnotes) h
  · cases h

private theorem addressed_commonTypeAt {o : TypeObject} (hj : TypeObject.ofJson? j = some o)
    (hnames : j.namesFields (.struct .typeObject) = true)
    (h : commonTypeAt path key o = .error e) : Addressed path j e := by
  rcases Except.bind_eq_error_iff.mp h with h | ⟨id, -, h⟩
  · exact (isAt_of_identifierAt h).addressed _
  rcases Except.bind_eq_error_iff.mp h with h | ⟨notes, -, h⟩
  · exact addressed_annotations_typeObject hj hnames h
  rcases Except.bind_eq_error_iff.mp h with h | ⟨type, -, h⟩
  · exact leading_typeUpTo _ _ _ _ _ _ _ hj hnames h
  · cases h

/-! ### Schemas -/

private theorem addressed_structs {α β : Type} {s : Struct} {read? : Json → Option α}
    {read : Pointer → String → α → Except Error β} {ms : Members α}
    (hj : members? read? j = some ms) (hnames : j.namesFields (.members s) = true)
    (h : membersAt path ms read = .error e)
    (hread : ∀ {j path key a}, read? j = some a → j.namesFields (.struct s) = true →
      read path key a = .error e → Addressed path j e) :
    Addressed path j e := by
  obtain ⟨raw, rfl, hraw⟩ := members?_eq_some_iff.mp hj
  exact addressed_membersAt hraw h fun m hm _ _ hvalue herror ↦
    hread hvalue (membersNameFields_iff.mp hnames m hm) herror

private theorem addressed_namespaceAt {o : NamespaceObject}
    (hj : NamespaceObject.ofJson? j = some o)
    (hnames : j.namesFields (.struct .schemaNamespace) = true)
    (h : namespaceAt path o = .error e) : Addressed path j e := by
  obtain ⟨members, rfl, hkeys, hfields, hj⟩ := exists_object_of_slots? hj hnames
  simp only [List.map_cons, List.map_nil, Option.bind_eq_bind, Option.bind_eq_some_iff,
    Option.pure_def, Option.some.injEq] at hj
  obtain ⟨_, hnotes, _, hcommon, _, hentity, _, haction, rfl⟩ := hj
  rcases Except.bind_eq_error_iff.mp h with h | ⟨notes, -, h⟩
  · exact addressed_annotationsAt hkeys (gives_of_orEmpty hfields hnotes) h
  rcases Except.bind_eq_error_iff.mp h with h | ⟨cs, -, h⟩
  · rcases gives_of_orEmpty hfields hcommon with hnil | hgives
    · subst hnil
      cases h
    · exact addressed_of_gives hkeys hgives fun v hnames hv ↦
        addressed_structs hv hnames h addressed_commonTypeAt
  rcases Except.bind_eq_error_iff.mp h with h | ⟨es, -, h⟩
  · exact addressed_of_gives hkeys (gives_of_required hfields hentity) fun v hnames hv ↦
      addressed_structs hv hnames h addressed_entityTypeAt
  rcases Except.bind_eq_error_iff.mp h with h | ⟨as, -, h⟩
  · exact addressed_of_gives hkeys (gives_of_required hfields haction) fun v hnames hv ↦
      addressed_structs hv hnames h addressed_actionAt
  · cases h

private theorem addressed_entryAt {o : NamespaceObject}
    (hj : NamespaceObject.ofJson? j = some o)
    (hnames : j.namesFields (.struct .schemaNamespace) = true)
    (h : entryAt path key o = .error e) : Addressed path j e := by
  rcases Except.bind_eq_error_iff.mp h with h | ⟨name, -, h⟩
  · unfold namespaceNameAt at h
    split at h
    · cases h
    · exact (isAt_of_nameAt (Except.map_eq_error_iff.mp h)).addressed _
  rcases Except.bind_eq_error_iff.mp h with h | ⟨ns, -, h⟩
  · exact addressed_namespaceAt hj hnames h
  · cases h

-- Where a value that has the form of a document holds no schema, the path of the error leads to a
-- value in it.
private theorem addressed_toSchema {d : Document} (hj : ofJson? j = some d)
    (hnames : j.namesFields (.members .schemaNamespace) = true) (h : toSchema d = .error e) :
    Addressed .root j e := by
  rcases Except.bind_eq_error_iff.mp h with h | ⟨entries, -, h⟩
  · exact addressed_structs hj hnames h addressed_entryAt
  · cases h

/-- Bytes that fail for any reason other than their form are those of a JSON value. If no value with
fixed fields in it is written as an array, the path of the error leads to a value in it through
objects that repeat no key, and a key that is reported as repeated is so in the value that the path
leads to. -/
theorem leads_of_readBytes {bytes : List UInt8} (h : readBytes bytes = .error e)
    (hcause : e.cause ≠ .malformed) :
    ∃ text j, Unicode.Utf8.decode? bytes = some text ∧ Json.read? text = some j ∧
      (j.namesFields (.members .schemaNamespace) = true →
        ∃ target, Leads j e.path.keys target ∧
          ∀ key, e.cause = .duplicateKey key → Repeats key target) := by
  have hmalformed {s : Except Error Schema} (hs : s = failAt .root .malformed)
      (h : s = .error e) : False := by
    rw [hs] at h
    cases h
    exact hcause rfl
  unfold readBytes at h
  split at h
  · next text htext =>
    unfold read at h
    split at h
    · next j hj =>
      refine ⟨text, j, htext, hj, fun hnames ↦ ?_⟩
      unfold readValue at h
      split at h
      · next d hd =>
        obtain ⟨keys, target, hpath, hleads, hrepeats⟩ := addressed_toSchema hd hnames h
        rw [Pointer.root, List.nil_append] at hpath
        exact ⟨target, hpath ▸ hleads, hrepeats⟩
      · exact (hmalformed rfl h).elim
    · exact (hmalformed rfl h).elim
  · exact (hmalformed rfl h).elim

/-- Two attributes of a record have one key. -/
theorem leads_of_readBytes_repeated :
    let document := "\x7b\"\":\x7b\"commonTypes\":\x7b\"T\":\x7b\"type\":\"Record\"," ++
      "\"attributes\":\x7b\"k\":\x7b\"type\":\"A\"\x7d,\"k\":\x7b\"type\":\"A\"\x7d\x7d" ++
      "\x7d\x7d,\"entityTypes\":\x7b\x7d,\"actions\":\x7b\x7d\x7d\x7d"
    let keys := ["", "commonTypes", "T", "attributes"]
    readBytes document.toUTF8.data.toList = .error ⟨.duplicateKey "k", ⟨keys⟩⟩ ∧
      ∃ j target, Json.read? document.toList = some j ∧
        j.namesFields (.members .schemaNamespace) = true ∧ Leads j keys target ∧
        Repeats "k" target := by
  intro document keys
  have h : readBytes document.toUTF8.data.toList = .error ⟨.duplicateKey "k", ⟨keys⟩⟩ := by
    rw [readBytes_toUTF8]
    decide +kernel
  have hnamed : (Json.read? document.toList).map (namesFields (.members .schemaNamespace)) =
      some true := by decide +kernel
  obtain ⟨text, j, htext, hj, hleads⟩ := leads_of_readBytes h nofun
  rw [Unicode.Utf8.decode?_toUTF8] at htext
  obtain rfl := Option.some.inj htext
  rw [hj] at hnamed
  obtain ⟨target, htarget, hrepeats⟩ := hleads (Option.some.inj hnamed)
  exact ⟨h, j, target, hj, Option.some.inj hnamed, htarget, hrepeats "k" rfl⟩

end

end Document

end PolicySchema
