import PolicySchema.Proofs.Table
import PolicySchema.Proofs.Text.BlockRecognition

/-!
# Assembling a schema

Items assemble exactly if no two of them introduce the same thing, and the schema then declares just
what they state. A schema that does so is determined up to the places of its declarations.
-/

namespace PolicySchema

open Text

variable {s s' : Schema} {ns : Option Name} {ss : List Statement}

/-! ### Looking up declarations -/

namespace Schema

/-- The declarations of a namespace, none if it is missing. -/
def declared (s : Schema) (ns : Option Name) : Namespace := (s.namespace? ns).getD .empty

/-- Changing a namespace changes nothing else. -/
theorem namespace?_update (f : Namespace → Namespace) (j : Option Name) :
    (s.update ns f).namespace? j = if j = ns then some (f (s.declared ns)) else s.namespace? j :=
  Table.find?_insert ..

private theorem annotations_eq (s : Schema) (ns : Option Name) :
    s.annotations ns = (s.declared ns).annotations := by
  unfold annotations declared
  cases s.namespace? ns <;> rfl

/-- A common type is found among the declarations of its namespace. -/
theorem commonType?_eq (s : Schema) (ns : Option Name) (key : Identifier) :
    s.commonType? ns key = (s.declared ns).commonTypes.find? key := by
  unfold commonType? declared
  cases s.namespace? ns <;> rfl

/-- An entity type is found among the declarations of its namespace. -/
theorem entityType?_eq (s : Schema) (ns : Option Name) (key : Identifier) :
    s.entityType? ns key = (s.declared ns).entityTypes.find? key := by
  unfold entityType? declared
  cases s.namespace? ns <;> rfl

/-- An action is found among the declarations of its namespace. -/
theorem action?_eq (s : Schema) (ns : Option Name) (key : String) :
    s.action? ns key = (s.declared ns).actions.find? key := by
  unfold action? declared
  cases s.namespace? ns <;> rfl

/-- Changing a namespace changes the declarations of no other. -/
theorem declared_update (f : Namespace → Namespace) (j : Option Name) :
    (s.update ns f).declared j = if j = ns then f (s.declared ns) else s.declared j := by
  rw [declared, namespace?_update]
  split <;> rfl

/-! ### Adding a statement -/

/-- A change of a namespace that adds just what a statement says. -/
structure Adds (st : Statement) (f : Namespace → Namespace) : Prop where
  block : ∀ d n notes, st = .block n notes → (f d).annotations = notes
  noBlock : ∀ d, (∀ n notes, st ≠ .block n notes) → (f d).annotations = d.annotations
  commonTypes : ∀ d key body notes,
    (∃ place, (f d).commonTypes.find? key = some ⟨body, notes, place⟩) ↔
      st = .commonType st.about key body notes ∨ st.introduced ≠ .commonType st.about key ∧
        ∃ place, d.commonTypes.find? key = some ⟨body, notes, place⟩
  entityTypes : ∀ d key body notes,
    (∃ place, (f d).entityTypes.find? key = some ⟨body, notes, place⟩) ↔
      st = .entityType st.about key body notes ∨ st.introduced ≠ .entityType st.about key ∧
        ∃ place, d.entityTypes.find? key = some ⟨body, notes, place⟩
  actions : ∀ d key body notes,
    (∃ place, (f d).actions.find? key = some ⟨body, notes, place⟩) ↔
      st = .action st.about key body notes ∨ st.introduced ≠ .action st.about key ∧
        ∃ place, d.actions.find? key = some ⟨body, notes, place⟩

private theorem declared_add {κ α : Type} [Ord κ] {table : Namespace → Table κ (Declaration α)}
    {key : κ} {body : α} {notes : Annotations} {st t : Statement} {f : Namespace → Namespace}
    (hnew : t.introduced = st.introduced → t ∉ ss)
    (hold : (∃ place, (table (s.declared t.about)).find? key = some ⟨body, notes, place⟩) ↔ t ∈ ss)
    (hadd : t.about = st.about →
      ((∃ place, (table (f (s.declared st.about))).find? key = some ⟨body, notes, place⟩) ↔
        st = t ∨ st.introduced ≠ t.introduced ∧
          ∃ place, (table (s.declared t.about)).find? key = some ⟨body, notes, place⟩)) :
    (∃ place, (table ((s.update st.about f).declared t.about)).find? key =
      some ⟨body, notes, place⟩) ↔ t ∈ ss ++ [st] := by
  rw [declared_update, List.mem_append, List.mem_singleton]
  split
  · next hj =>
    rw [hadd hj, hold]
    constructor
    · rintro (rfl | ⟨-, ht⟩)
      · exact .inr rfl
      · exact .inl ht
    · rintro (ht | rfl)
      · exact .inr ⟨fun hi ↦ hnew hi.symm ht, ht⟩
      · exact .inl rfl
  · next hj =>
    rw [hold, or_iff_left]
    rintro rfl
    exact hj rfl

private theorem annotations_update_block {n : Name} {notes : Annotations}
    {f : Namespace → Namespace} (hf : Adds (.block n notes) f) :
    (s.update (some n) f).annotations (some n) = notes := by
  rw [annotations_eq, declared_update, if_pos rfl]
  exact hf.block _ n notes rfl

private theorem annotations_update_of_ne {st : Statement} {f : Namespace → Namespace}
    (hf : Adds st f) {j : Option Name} (hj : ∀ n notes, st = .block n notes → some n ≠ j) :
    (s.update st.about f).annotations j = s.annotations j := by
  rw [annotations_eq, annotations_eq, declared_update]
  split
  · next habout =>
    rw [hf.noBlock, habout]
    rintro n notes rfl
    exact hj n notes rfl habout.symm
  · rfl

-- A namespace is there after a statement is added if it was there before or the statement is about
-- it.
private theorem isSome_namespace?_update {st : Statement} {f : Namespace → Namespace}
    (h : ∀ j, (s.namespace? j).isSome = true ↔ ∃ t ∈ ss, t.about = j) (j : Option Name) :
    ((s.update st.about f).namespace? j).isSome = true ↔ ∃ t ∈ ss ++ [st], t.about = j := by
  rw [namespace?_update]
  split
  · next hj => exact iff_of_true rfl ⟨st, by simp, hj.symm⟩
  · next hj => simp [h, or_and_right, exists_or, Ne.symm hj]

/-- A schema with a statement added holds it besides the earlier ones, if it is new. -/
theorem Holds.add (h : s.Holds ss) {st : Statement}
    (hnew : st.introduced ∉ ss.map Statement.introduced) {f : Namespace → Namespace}
    (hf : Adds st f) : (s.update st.about f).Holds (ss ++ [st]) := by
  have hold {t : Statement} (ht : t.introduced = st.introduced) : t ∉ ss :=
    fun hm ↦ hnew (ht ▸ List.mem_map_of_mem hm)
  constructor
  case namespaces => exact isSome_namespace?_update h.namespaces
  case annotated =>
    intro n notes hm
    rcases List.mem_append.mp hm with hbefore | hm
    · rw [annotations_update_of_ne hf, h.annotated n notes hbefore]
      rintro n' notes' rfl ⟨⟩
      exact hold (t := .block n notes) rfl hbefore
    · obtain rfl := List.mem_singleton.mp hm
      exact annotations_update_block hf
  case unannotated =>
    intro j hj
    rw [annotations_update_of_ne hf]
    · exact h.unannotated j fun n notes hm ↦ hj n notes (List.mem_append_left _ hm)
    · rintro n notes rfl
      exact (hj n notes (by simp)).symm
  case commonTypes =>
    intro j key body notes
    rw [commonType?_eq]
    refine declared_add (t := .commonType j key body notes) hold ?_ ?_
    · rw [← commonType?_eq]
      exact h.commonTypes ..
    · rintro rfl
      exact hf.commonTypes ..
  case entityTypes =>
    intro j key body notes
    rw [entityType?_eq]
    refine declared_add (t := .entityType j key body notes) hold ?_ ?_
    · rw [← entityType?_eq]
      exact h.entityTypes ..
    · rintro rfl
      exact hf.entityTypes ..
  case actions =>
    intro j key body notes
    rw [action?_eq]
    refine declared_add (t := .action j key body notes) hold ?_ ?_
    · rw [← action?_eq]
      exact h.actions ..
    · rintro rfl
      exact hf.actions ..

private theorem adds_block (n : Name) (notes : Annotations) :
    Adds (.block n notes) fun d ↦ { d with annotations := notes } where
  block := by
    rintro d _ _ ⟨⟩
    rfl
  noBlock d h := absurd rfl (h n notes)
  commonTypes := by simp [Statement.introduced]
  entityTypes := by simp [Statement.introduced]
  actions := by simp [Statement.introduced]

private theorem adds_commonType (ns : Option Name) (key : Identifier) (body : TypeExpr TypeRef)
    (notes : Annotations) (place : Option Location) :
    Adds (.commonType ns key body notes) fun d ↦
      { d with commonTypes := d.commonTypes.insert key ⟨body, notes, place⟩ } where
  block := nofun
  noBlock d _ := rfl
  commonTypes d key' body' notes' := by
    rw [Table.find?_insert]
    by_cases hk : key' = key
    · simp [hk, Statement.introduced, Statement.about]
    · simp [hk, Ne.symm hk, Statement.introduced, Statement.about]
  entityTypes := by simp [Statement.introduced]
  actions := by simp [Statement.introduced]

private theorem adds_entityType (ns : Option Name) (key : Identifier) (body : EntityType)
    (notes : Annotations) (place : Option Location) :
    Adds (.entityType ns key body notes) fun d ↦
      { d with entityTypes := d.entityTypes.insert key ⟨body, notes, place⟩ } where
  block := nofun
  noBlock d _ := rfl
  commonTypes := by simp [Statement.introduced]
  entityTypes d key' body' notes' := by
    rw [Table.find?_insert]
    by_cases hk : key' = key
    · simp [hk, Statement.introduced, Statement.about]
    · simp [hk, Ne.symm hk, Statement.introduced, Statement.about]
  actions := by simp [Statement.introduced]

private theorem adds_action (ns : Option Name) (key : String) (body : Action)
    (notes : Annotations) (place : Option Location) :
    Adds (.action ns key body notes) fun d ↦
      { d with actions := d.actions.insert key ⟨body, notes, place⟩ } where
  block := nofun
  noBlock d _ := rfl
  commonTypes := by simp [Statement.introduced]
  entityTypes := by simp [Statement.introduced]
  actions d key' body' notes' := by
    rw [Table.find?_insert]
    by_cases hk : key' = key
    · simp [hk, Statement.introduced, Statement.about]
    · simp [hk, Ne.symm hk, Statement.introduced, Statement.about]

/-! ### What is introduced already -/

private theorem isSome_find?_iff {α : Type} {o : Option (Declaration α)}
    {P : α → Annotations → Prop}
    (h : ∀ body notes, (∃ place, o = some ⟨body, notes, place⟩) ↔ P body notes) :
    o.isSome = true ↔ ∃ body notes, P body notes := by
  rw [Option.isSome_iff_exists]
  constructor
  · rintro ⟨⟨body, notes, place⟩, rfl⟩
    exact ⟨body, notes, (h body notes).mp ⟨place, rfl⟩⟩
  · rintro ⟨body, notes, hp⟩
    obtain ⟨place, rfl⟩ := (h body notes).mpr hp
    exact ⟨_, rfl⟩

/-- A common type is declared exactly if a statement introduces it. -/
theorem Holds.commonType_introduced (h : s.Holds ss) {key : Identifier} :
    (s.declared ns).commonTypes.contains key = true ↔
      .commonType ns key ∈ ss.map Statement.introduced := by
  rw [Table.contains, ← commonType?_eq, isSome_find?_iff (h.commonTypes ns key), List.mem_map]
  constructor
  · rintro ⟨body, notes, hm⟩
    exact ⟨_, hm, rfl⟩
  · rintro ⟨st, hm, hi⟩
    cases st <;> cases hi
    exact ⟨_, _, hm⟩

/-- An entity type is declared exactly if a statement introduces it. -/
theorem Holds.entityType_introduced (h : s.Holds ss) {key : Identifier} :
    (s.declared ns).entityTypes.contains key = true ↔
      .entityType ns key ∈ ss.map Statement.introduced := by
  rw [Table.contains, ← entityType?_eq, isSome_find?_iff (h.entityTypes ns key), List.mem_map]
  constructor
  · rintro ⟨body, notes, hm⟩
    exact ⟨_, hm, rfl⟩
  · rintro ⟨st, hm, hi⟩
    cases st <;> cases hi
    exact ⟨_, _, hm⟩

/-- An action is declared exactly if a statement introduces it. -/
theorem Holds.action_introduced (h : s.Holds ss) {key : String} :
    (s.declared ns).actions.contains key = true ↔ .action ns key ∈ ss.map Statement.introduced := by
  rw [Table.contains, ← action?_eq, isSome_find?_iff (h.actions ns key), List.mem_map]
  constructor
  · rintro ⟨body, notes, hm⟩
    exact ⟨_, hm, rfl⟩
  · rintro ⟨st, hm, hi⟩
    cases st <;> cases hi
    exact ⟨_, _, hm⟩

end Schema

namespace Text

/-- What has been assembled from statements: a schema that holds them, and the blocks among them. -/
structure Assembly.Holds (a : Assembly) (ss : List Statement) : Prop where
  schema : a.schema.Holds ss
  blocks : ∀ n, a.blocks.contains n = true ↔ .block n ∈ ss.map Statement.introduced

namespace Assembly

variable {a : Assembly} {source : Source}

/-- Before the first statement nothing is assembled. -/
theorem holds_empty : Assembly.empty.Holds [] where
  schema := by
    constructor <;>
      simp [empty, Schema.empty, Schema.namespace?, Schema.annotations, Schema.commonType?,
        Schema.entityType?, Schema.action?, Table.find?_empty, EmptyCollection.emptyCollection]
  blocks := by simp [empty, Table.contains, Table.find?_empty, EmptyCollection.emptyCollection]

private theorem Holds.blocks_concat (h : a.Holds ss) {st : Statement}
    (hst : ∀ n notes, st ≠ .block n notes) (n : Name) :
    a.blocks.contains n = true ↔ .block n ∈ (ss ++ [st]).map Statement.introduced := by
  rw [h.blocks, List.map_append, List.mem_append, or_iff_left]
  intro hn
  cases st with
  | block n' notes => exact hst n' notes rfl
  | _ => simp [Statement.introduced] at hn

/-- An item is added exactly if what it introduces is new. -/
theorem Holds.add (h : a.Holds ss) (source : Source) (item : Item) :
    (item.statement.introduced ∈ ss.map Statement.introduced → ∃ f, a.add source item = .error f) ∧
      (item.statement.introduced ∉ ss.map Statement.introduced →
        ∃ a', a.add source item = .ok a' ∧ a'.Holds (ss ++ [item.statement])) := by
  cases item with
  | block n notes span =>
    rw [Assembly.add]
    simp only [h.blocks]
    refine ⟨fun hold ↦ ⟨_, if_pos hold⟩, fun hnew ↦ ⟨_, if_neg hnew, ?_⟩⟩
    refine ⟨h.schema.add hnew (Schema.adds_block n notes), fun j ↦ ?_⟩
    rw [KeySet.add, Table.contains, Table.find?_insert, List.map_append, List.mem_append,
      ← h.blocks, Table.contains]
    by_cases hj : j = n
    · simp [hj, Item.statement, Statement.introduced]
    · simp [hj, Item.statement, Statement.introduced]
  | commonType d =>
    have hiff : (a.declarations d.ns).commonTypes.contains d.key = true ↔ _ :=
      h.schema.commonType_introduced
    rw [Assembly.add]
    simp only [hiff]
    refine ⟨fun hold ↦ ⟨_, if_pos hold⟩, fun hnew ↦ ⟨_, if_neg hnew, ?_⟩⟩
    exact ⟨h.schema.add hnew (Schema.adds_commonType ..),
      h.blocks_concat (by simp [Item.statement])⟩
  | entityType d =>
    have hiff : (a.declarations d.ns).entityTypes.contains d.key = true ↔ _ :=
      h.schema.entityType_introduced
    rw [Assembly.add]
    rw [Table.contains] at hiff
    cases hd : (a.declarations d.ns).entityTypes.find? d.key with
    | some earlier =>
      rw [hd] at hiff
      refine ⟨fun _ ↦ ?_, fun hnew ↦ absurd (hiff.mp rfl) hnew⟩
      dsimp only
      split <;> exact ⟨_, rfl⟩
    | none =>
      rw [hd] at hiff
      refine ⟨fun hold ↦ absurd (hiff.mpr hold) Bool.false_ne_true, fun hnew ↦ ⟨_, rfl, ?_⟩⟩
      exact ⟨h.schema.add hnew (Schema.adds_entityType ..),
        h.blocks_concat (by simp [Item.statement])⟩
  | action d =>
    have hiff : (a.declarations d.ns).actions.contains d.key = true ↔ _ :=
      h.schema.action_introduced
    rw [Assembly.add]
    simp only [hiff]
    refine ⟨fun hold ↦ ⟨_, if_pos hold⟩, fun hnew ↦ ⟨_, if_neg hnew, ?_⟩⟩
    exact ⟨h.schema.add hnew (Schema.adds_action ..),
      h.blocks_concat (by simp [Item.statement])⟩

private theorem Holds.addAll (h : a.Holds ss) (hd : (ss.map Statement.introduced).Nodup)
    (source : Source) (items : List Item) :
    ((∃ a', a.addAll source items = .ok a') →
      ((ss ++ items.map Item.statement).map Statement.introduced).Nodup) ∧
      (((ss ++ items.map Item.statement).map Statement.introduced).Nodup →
        ∃ a', a.addAll source items = .ok a' ∧ a'.Holds (ss ++ items.map Item.statement)) := by
  induction items generalizing a ss with
  | nil =>
    simp only [List.map_nil, List.append_nil]
    exact ⟨fun _ ↦ hd, fun _ ↦ ⟨a, rfl, h⟩⟩
  | cons item items ih =>
    obtain ⟨hold, hnew⟩ := h.add source item
    rw [List.map_cons, List.append_cons, Assembly.addAll]
    by_cases hm : item.statement.introduced ∈ ss.map Statement.introduced
    · obtain ⟨f, hf⟩ := hold hm
      rw [hf]
      refine ⟨nofun, fun hdiff ↦ ?_⟩
      rw [List.append_assoc] at hdiff
      exact absurd hm (nodup_map_before hdiff).2
    · obtain ⟨a', ha, ha'⟩ := hnew hm
      rw [ha]
      exact ih ha' (nodup_map_concat hd hm)

end Assembly

/-- Items assemble exactly if what they introduce is different. -/
theorem assemble_isOk_iff {source : Source} {items : List Item} :
    (∃ s, assemble source items = .ok s) ↔
      ((items.map Item.statement).map Statement.introduced).Nodup := by
  obtain ⟨hdiff, hok⟩ := Assembly.holds_empty.addAll List.nodup_nil source items
  rw [assemble]
  constructor
  · rintro ⟨s, hs⟩
    cases ha : Assembly.empty.addAll source items with
    | error f =>
      rw [ha] at hs
      cases hs
    | ok a => exact hdiff ⟨a, ha⟩
  · intro h
    obtain ⟨a, ha, _⟩ := hok h
    rw [ha]
    exact ⟨a.schema, rfl⟩

/-- An assembled schema holds what the items state. -/
theorem holds_of_assemble {source : Source} {items : List Item}
    (h : assemble source items = .ok s) : s.Holds (items.map Item.statement) := by
  obtain ⟨a, ha, hholds⟩ := (Assembly.holds_empty.addAll List.nodup_nil source items).2
    (assemble_isOk_iff.mp ⟨s, h⟩)
  rw [assemble, ha] at h
  cases h
  exact hholds.schema

end Text

namespace Schema

/-! ### Places -/

private theorem map_placeless_eq_iff {α : Type} {o o' : Option (Declaration α)} :
    o.map Declaration.placeless = o'.map Declaration.placeless ↔
      ∀ body notes, (∃ place, o = some ⟨body, notes, place⟩) ↔
        ∃ place, o' = some ⟨body, notes, place⟩ := by
  cases o with
  | none =>
    cases o' with
    | none => simp
    | some d' =>
      refine iff_of_false nofun fun h ↦ ?_
      obtain ⟨_, h⟩ := (h d'.body d'.annotations).mpr ⟨d'.location, rfl⟩
      cases h
  | some d =>
    cases o' with
    | none =>
      refine iff_of_false nofun fun h ↦ ?_
      obtain ⟨_, h⟩ := (h d.body d.annotations).mp ⟨d.location, rfl⟩
      cases h
    | some d' =>
      obtain ⟨body, notes, place⟩ := d
      obtain ⟨body', notes', place'⟩ := d'
      simp only [Option.map_some, Option.some.injEq, Declaration.placeless, Declaration.mk.injEq,
        and_true]
      constructor
      · rintro ⟨rfl, rfl⟩ _ _
        simp
      · intro h
        obtain ⟨_, hb, hn, _⟩ := (h body notes).mp ⟨place, rfl, rfl, rfl⟩
        exact ⟨hb.symm, hn.symm⟩

private theorem namespace?_placeless (s : Schema) (ns : Option Name) :
    s.placeless.namespace? ns = (s.namespace? ns).map Namespace.placeless :=
  Table.find?_map ..

private theorem annotations_placeless (s : Schema) (ns : Option Name) :
    s.placeless.annotations ns = s.annotations ns := by
  rw [annotations, namespace?_placeless, annotations]
  cases s.namespace? ns <;> rfl

private theorem commonType?_placeless (s : Schema) (ns : Option Name) (key : Identifier) :
    s.placeless.commonType? ns key = (s.commonType? ns key).map Declaration.placeless := by
  rw [commonType?, namespace?_placeless, commonType?]
  cases s.namespace? ns with
  | none => rfl
  | some d => exact Table.find?_map ..

private theorem entityType?_placeless (s : Schema) (ns : Option Name) (key : Identifier) :
    s.placeless.entityType? ns key = (s.entityType? ns key).map Declaration.placeless := by
  rw [entityType?, namespace?_placeless, entityType?]
  cases s.namespace? ns with
  | none => rfl
  | some d => exact Table.find?_map ..

private theorem action?_placeless (s : Schema) (ns : Option Name) (key : String) :
    s.placeless.action? ns key = (s.action? ns key).map Declaration.placeless := by
  rw [action?, namespace?_placeless, action?]
  cases s.namespace? ns with
  | none => rfl
  | some d => exact Table.find?_map ..

/-- Schemas in which the same is found are equal. -/
theorem ext_lookups (hns : ∀ ns, (s.namespace? ns).isSome = (s'.namespace? ns).isSome)
    (hnotes : ∀ ns, s.annotations ns = s'.annotations ns)
    (hcommon : ∀ ns key, s.commonType? ns key = s'.commonType? ns key)
    (hentity : ∀ ns key, s.entityType? ns key = s'.entityType? ns key)
    (haction : ∀ ns key, s.action? ns key = s'.action? ns key) : s = s' := by
  have hlookup : ∀ ns, s.namespace? ns = s'.namespace? ns := by
    intro ns
    specialize hns ns
    specialize hnotes ns
    specialize hcommon ns
    specialize hentity ns
    specialize haction ns
    simp only [annotations, commonType?, entityType?, action?] at hnotes hcommon hentity haction
    cases hd : s.namespace? ns with
    | none =>
      rw [hd, Option.isSome_none, eq_comm, Option.isSome_eq_false_iff, Option.isNone_iff_eq_none]
        at hns
      rw [hns]
    | some d =>
      rw [hd, Option.isSome_some, eq_comm, Option.isSome_iff_exists] at hns
      obtain ⟨d', hd'⟩ := hns
      rw [hd, hd'] at hnotes hcommon hentity haction
      rw [hd', Option.some.injEq]
      obtain ⟨notes, common, entity, action⟩ := d
      obtain ⟨notes', common', entity', action'⟩ := d'
      obtain rfl : notes = notes' := hnotes
      obtain rfl : common = common' := Table.ext_find? hcommon
      obtain rfl : entity = entity' := Table.ext_find? hentity
      obtain rfl : action = action' := Table.ext_find? haction
      rfl
  obtain ⟨namespaces⟩ := s
  obtain ⟨namespaces'⟩ := s'
  obtain rfl : namespaces = namespaces' := Table.ext_find? hlookup
  rfl

/-- Schemas agree exactly if the same namespaces in them have the same annotations and the same
declarations but for places. -/
theorem agrees_iff : s.agrees s' = true ↔
    (∀ ns, (s.namespace? ns).isSome = (s'.namespace? ns).isSome) ∧
      (∀ ns, s.annotations ns = s'.annotations ns) ∧
      (∀ ns key body notes, (∃ place, s.commonType? ns key = some ⟨body, notes, place⟩) ↔
        ∃ place, s'.commonType? ns key = some ⟨body, notes, place⟩) ∧
      (∀ ns key body notes, (∃ place, s.entityType? ns key = some ⟨body, notes, place⟩) ↔
        ∃ place, s'.entityType? ns key = some ⟨body, notes, place⟩) ∧
      ∀ ns key body notes, (∃ place, s.action? ns key = some ⟨body, notes, place⟩) ↔
        ∃ place, s'.action? ns key = some ⟨body, notes, place⟩ := by
  simp only [← map_placeless_eq_iff, ← commonType?_placeless, ← entityType?_placeless,
    ← action?_placeless, agrees, decide_eq_true_eq]
  constructor
  · intro h
    rw [h]
    refine ⟨fun ns ↦ ?_, fun ns ↦ ?_, fun _ _ ↦ rfl, fun _ _ ↦ rfl, fun _ _ ↦ rfl⟩
    · have hns := congrArg (fun s ↦ (s.namespace? ns).isSome) h
      simpa only [namespace?_placeless, Option.isSome_map] using hns
    · rw [← annotations_placeless s, h, annotations_placeless]
  · rintro ⟨hns, hnotes, hcommon, hentity, haction⟩
    refine ext_lookups (fun ns ↦ ?_) (fun ns ↦ ?_) hcommon hentity haction
    · simpa only [namespace?_placeless, Option.isSome_map] using hns ns
    · rw [annotations_placeless, annotations_placeless, hnotes]

/-- A schema that agrees with one that holds statements holds them too. -/
theorem Holds.of_agrees (h : s.Holds ss) (ha : s.agrees s' = true) : s'.Holds ss := by
  obtain ⟨hns, hnotes, hcommon, hentity, haction⟩ := agrees_iff.mp ha
  constructor
  case namespaces => exact fun ns ↦ by rw [← hns, h.namespaces]
  case annotated => exact fun n notes hm ↦ by rw [← hnotes, h.annotated n notes hm]
  case unannotated => exact fun ns hn ↦ by rw [← hnotes, h.unannotated ns hn]
  case commonTypes => exact fun ns key body notes ↦ by rw [← hcommon, h.commonTypes]
  case entityTypes => exact fun ns key body notes ↦ by rw [← hentity, h.entityTypes]
  case actions => exact fun ns key body notes ↦ by rw [← haction, h.actions]

/-- In which order statements are held does not matter. -/
theorem Holds.of_perm {ss' : List Statement} (h : s.Holds ss) (hp : ss.Perm ss') : s.Holds ss' := by
  constructor
  case namespaces =>
    intro ns
    simp only [h.namespaces, hp.mem_iff]
  case annotated => exact fun n notes hm ↦ h.annotated n notes (hp.mem_iff.mpr hm)
  case unannotated =>
    exact fun ns hn ↦ h.unannotated ns fun n notes hm ↦ hn n notes (hp.mem_iff.mp hm)
  case commonTypes => exact fun ns key body notes ↦ by rw [h.commonTypes, hp.mem_iff]
  case entityTypes => exact fun ns key body notes ↦ by rw [h.entityTypes, hp.mem_iff]
  case actions => exact fun ns key body notes ↦ by rw [h.actions, hp.mem_iff]

/-- Schemas that hold the same statements agree. -/
theorem Holds.agrees (h : s.Holds ss) (h' : s'.Holds ss) : s.agrees s' = true := by
  refine agrees_iff.mpr ⟨fun ns ↦ ?_, fun ns ↦ ?_, fun ns key body notes ↦ ?_,
    fun ns key body notes ↦ ?_, fun ns key body notes ↦ ?_⟩
  · rw [Bool.eq_iff_iff, h.namespaces, h'.namespaces]
  · by_cases hb : ∃ n notes, .block n notes ∈ ss ∧ ns = some n
    · obtain ⟨n, notes, hm, rfl⟩ := hb
      rw [h.annotated n notes hm, h'.annotated n notes hm]
    · have hn : ∀ n notes, .block n notes ∈ ss → ns ≠ some n :=
        fun n notes hm he ↦ hb ⟨n, notes, hm, he⟩
      rw [h.unannotated ns hn, h'.unannotated ns hn]
  · rw [h.commonTypes, h'.commonTypes]
  · rw [h.entityTypes, h'.entityTypes]
  · rw [h.actions, h'.actions]

end Schema

end PolicySchema
