import Mathlib.Data.List.Nodup
import PolicySchema.Proofs.Merge
import PolicySchema.Proofs.Text.Acceptance
import PolicySchema.Proofs.Text.LockstepRead
import PolicySchema.Proofs.Text.Seams

/-!
# Reading texts one after another

What stands before a line break and what stands after it state what they state on their own. So two
texts that can be read are read together as their schemas merged, in either order, exactly if the
schemas are separate (`read_appendLine`).
-/

namespace PolicySchema

open Text Text.Syntax

/-! ### Separate schemas -/

/-- The schemas share no named namespace and declare nothing of one kind and name in the anonymous
one. -/
structure Schema.Separate (s t : Schema) : Prop where
  namespaces : ∀ n, (s.namespace? (some n)).isSome = true → t.namespace? (some n) = none
  commonTypes : ∀ key, (s.commonType? none key).isSome = true → t.commonType? none key = none
  entityTypes : ∀ key, (s.entityType? none key).isSome = true → t.entityType? none key = none
  actions : ∀ key, (s.action? none key).isSome = true → t.action? none key = none

namespace Schema

variable {s t : Schema} {ss ts : List Statement}

/-- Schemas are separate either way round. -/
theorem Separate.symm (h : s.Separate t) : t.Separate s := by
  have swap {α β : Type} {o : Option α} {o' : Option β} (h : o.isSome = true → o' = none)
      (h' : o'.isSome = true) : o = none := by
    cases o with
    | none => rfl
    | some a =>
      rw [h rfl] at h'
      cases h'
  exact ⟨fun n ↦ swap (h.namespaces n), fun key ↦ swap (h.commonTypes key),
    fun key ↦ swap (h.entityTypes key), fun key ↦ swap (h.actions key)⟩

/-! ### Looking up in a merged schema -/

private theorem namespace?_merge (s t : Schema) (ns : Option Name) :
    (s.merge t).namespace? ns = Option.merge Namespace.merge (s.namespace? ns) (t.namespace? ns) :=
  Table.find?_mergeWith ..

private theorem commonType?_merge (s t : Schema) (ns : Option Name) (key : Identifier) :
    (s.merge t).commonType? ns key = (s.commonType? ns key).or (t.commonType? ns key) :=
  lookup?_merge Namespace.commonTypes (fun _ _ _ ↦ Table.find?_merge ..) s t ns key

private theorem entityType?_merge (s t : Schema) (ns : Option Name) (key : Identifier) :
    (s.merge t).entityType? ns key = (s.entityType? ns key).or (t.entityType? ns key) :=
  lookup?_merge Namespace.entityTypes (fun _ _ _ ↦ Table.find?_merge ..) s t ns key

private theorem action?_merge (s t : Schema) (ns : Option Name) (key : String) :
    (s.merge t).action? ns key = (s.action? ns key).or (t.action? ns key) :=
  lookup?_merge Namespace.actions (fun _ _ _ ↦ Table.find?_merge ..) s t ns key

-- Unless they share a named namespace, what one looks up in a namespace is missing from the other
-- if it is missing from the anonymous one.
private theorem Separate.lookup_eq_none {α : Type} (h : s.Separate t) {f : Namespace → Option α}
    (hanonymous : ((s.namespace? none).bind f).isSome = true → (t.namespace? none).bind f = none)
    (ns : Option Name) (hs : ((s.namespace? ns).bind f).isSome = true) :
    (t.namespace? ns).bind f = none := by
  cases ns with
  | none => exact hanonymous hs
  | some n =>
    have hnamespace : (s.namespace? (some n)).isSome = true := by
      cases hn : s.namespace? (some n) with
      | none =>
        rw [hn] at hs
        cases hs
      | some d => rfl
    rw [h.namespaces n hnamespace]
    rfl

private theorem Separate.commonType?_eq_none (h : s.Separate t) (ns : Option Name)
    (key : Identifier) : (s.commonType? ns key).isSome = true → t.commonType? ns key = none :=
  h.lookup_eq_none (h.commonTypes key) ns

private theorem Separate.entityType?_eq_none (h : s.Separate t) (ns : Option Name)
    (key : Identifier) : (s.entityType? ns key).isSome = true → t.entityType? ns key = none :=
  h.lookup_eq_none (h.entityTypes key) ns

private theorem Separate.action?_eq_none (h : s.Separate t) (ns : Option Name) (key : String) :
    (s.action? ns key).isSome = true → t.action? ns key = none :=
  h.lookup_eq_none (h.actions key) ns

private theorem exists_or_iff {α : Type} {o o' : Option (Declaration α)} {body : α}
    {notes : Annotations} (h : o.isSome = true → o' = none) :
    (∃ place, o.or o' = some ⟨body, notes, place⟩) ↔
      (∃ place, o = some ⟨body, notes, place⟩) ∨ ∃ place, o' = some ⟨body, notes, place⟩ := by
  cases o with
  | none => simp
  | some d => simp [h rfl]

private theorem empty_merge (notes : Annotations) : Table.merge ∅ notes = notes :=
  Table.ext_find? fun k ↦ by rw [Table.find?_merge]; rfl

private theorem annotations_merge (s t : Schema) (ns : Option Name) :
    (s.merge t).annotations ns = (s.annotations ns).merge (t.annotations ns) := by
  rw [annotations, annotations, annotations, namespace?_merge]
  cases s.namespace? ns with
  | none =>
    cases t.namespace? ns with
    | none => rfl
    | some e => exact (empty_merge e.annotations).symm
  | some d => cases t.namespace? ns <;> rfl

private theorem Separate.annotations_eq_empty (h : s.Separate t) (hs : s.Holds ss) {n : Name}
    {notes : Annotations} (hm : .block n notes ∈ ss) : t.annotations (some n) = ∅ := by
  have hnone := h.namespaces n ((hs.namespaces (some n)).mpr ⟨_, hm, rfl⟩)
  rw [annotations, hnone]
  rfl

/-- Schemas that are separate merge to one that holds what both hold. -/
theorem Holds.merge (hs : s.Holds ss) (ht : t.Holds ts) (h : s.Separate t) :
    (s.merge t).Holds (ss ++ ts) := by
  constructor
  case namespaces =>
    intro ns
    rw [namespace?_merge]
    have hboth : (Option.merge Namespace.merge (s.namespace? ns) (t.namespace? ns)).isSome = true ↔
        (s.namespace? ns).isSome = true ∨ (t.namespace? ns).isSome = true := by
      cases s.namespace? ns <;> cases t.namespace? ns <;> simp [Option.merge]
    rw [hboth, hs.namespaces, ht.namespaces]
    simp only [List.mem_append, or_and_right, exists_or]
  case annotated =>
    intro n notes hm
    rw [annotations_merge]
    rcases List.mem_append.mp hm with hm | hm
    · rw [hs.annotated n notes hm, h.annotations_eq_empty hs hm]
      rfl
    · rw [ht.annotated n notes hm, h.symm.annotations_eq_empty ht hm, empty_merge]
  case unannotated =>
    intro ns hns
    rw [annotations_merge,
      hs.unannotated ns fun n notes hm ↦ hns n notes (List.mem_append_left _ hm),
      ht.unannotated ns fun n notes hm ↦ hns n notes (List.mem_append_right _ hm), empty_merge]
  case commonTypes =>
    intro ns key body notes
    rw [commonType?_merge, exists_or_iff (h.commonType?_eq_none ns key), hs.commonTypes,
      ht.commonTypes, List.mem_append]
  case entityTypes =>
    intro ns key body notes
    rw [entityType?_merge, exists_or_iff (h.entityType?_eq_none ns key), hs.entityTypes,
      ht.entityTypes, List.mem_append]
  case actions =>
    intro ns key body notes
    rw [action?_merge, exists_or_iff (h.action?_eq_none ns key), hs.actions,
      ht.actions, List.mem_append]

end Schema

/-! ### What two texts introduce -/

namespace Text

mutual

private theorem about_of_isDeclaration :
    ∀ {ns : Option Name} {ss : List Statement} {u : List Symbol},
    IsDeclaration ns ss u → ∀ st ∈ ss, st.about = ns ∨
      ∃ n notes, st.about = some n ∧ .block n notes ∈ ss
  | ns, _, _, @IsDeclaration.block _ n notes _ _ _ _ _ _ hinner, st, hst => by
    rcases List.mem_cons.mp hst with rfl | hst
    · exact .inr ⟨_, notes, rfl, List.mem_cons_self⟩
    · rcases about_of_isDeclarations hinner st hst with habout | ⟨m, inner, habout, hm⟩
      · exact .inr ⟨_, notes, habout, List.mem_cons_self⟩
      · exact .inr ⟨m, inner, habout, List.mem_cons_of_mem _ hm⟩
  | _, _, _, .body _ hbody, st, hst => by
    left
    cases hbody with
    | entity | action =>
      obtain ⟨key, -, rfl⟩ := List.mem_map.mp hst
      rfl
    | enum | commonType =>
      rw [List.mem_singleton.mp hst]
      rfl

-- Declarations are about the namespace that they stand in or about one that they open a block of.
private theorem about_of_isDeclarations :
    ∀ {ns : Option Name} {ss : List Statement} {u : List Symbol},
    IsDeclarations ns ss u → ∀ st ∈ ss, st.about = ns ∨
      ∃ n notes, st.about = some n ∧ .block n notes ∈ ss
  | _, _, _, .none, _, hst => nomatch hst
  | _, _, _, .more hdecl hmore, st, hst => by
    rcases List.mem_append.mp hst with hst | hst
    · rcases about_of_isDeclaration hdecl st hst with habout | ⟨n, notes, habout, hm⟩
      · exact .inl habout
      · exact .inr ⟨n, notes, habout, List.mem_append_left _ hm⟩
    · rcases about_of_isDeclarations hmore st hst with habout | ⟨n, notes, habout, hm⟩
      · exact .inl habout
      · exact .inr ⟨n, notes, habout, List.mem_append_right _ hm⟩

end

section

variable {s t : Schema} {ss ts : List Statement} {u v : List Symbol}

private theorem namespace_introduced (hs : s.Holds ss) (hss : IsDeclarations none ss u) {n : Name} :
    (s.namespace? (some n)).isSome = true ↔ .block n ∈ ss.map Statement.introduced := by
  rw [hs.namespaces, List.mem_map]
  constructor
  · rintro ⟨st, hst, habout⟩
    rcases about_of_isDeclarations hss st hst with hnone | ⟨m, notes, hm, hblock⟩
    · rw [hnone] at habout
      cases habout
    · obtain rfl : m = n := Option.some.inj (hm.symm.trans habout)
      exact ⟨_, hblock, rfl⟩
  · rintro ⟨st, hst, hintroduced⟩
    cases st <;> cases hintroduced
    exact ⟨_, hst, rfl⟩

private theorem commonType?_introduced (hs : s.Holds ss) (ns : Option Name) (key : Identifier) :
    (s.commonType? ns key).isSome = true ↔ .commonType ns key ∈ ss.map Statement.introduced := by
  rw [Schema.commonType?_eq]
  exact hs.commonType_introduced

private theorem entityType?_introduced (hs : s.Holds ss) (ns : Option Name) (key : Identifier) :
    (s.entityType? ns key).isSome = true ↔ .entityType ns key ∈ ss.map Statement.introduced := by
  rw [Schema.entityType?_eq]
  exact hs.entityType_introduced

private theorem action?_introduced (hs : s.Holds ss) (ns : Option Name) (key : String) :
    (s.action? ns key).isSome = true ↔ .action ns key ∈ ss.map Statement.introduced := by
  rw [Schema.action?_eq]
  exact hs.action_introduced

-- The schemas of two texts are separate exactly if no statement of one introduces what a statement
-- of the other does.
private theorem separate_iff (hs : s.Holds ss) (hss : IsDeclarations none ss u) (ht : t.Holds ts)
    (hts : IsDeclarations none ts v) :
    s.Separate t ↔ (ss.map Statement.introduced).Disjoint (ts.map Statement.introduced) := by
  constructor
  · intro h x hx hx'
    have apart {α : Type} {o : Option α} (hnone : o = none) (hsome : o.isSome = true) : False :=
      Option.not_isSome_iff_eq_none.mpr hnone hsome
    cases x with
    | block n =>
      exact apart (h.namespaces n ((namespace_introduced hs hss).mpr hx))
        ((namespace_introduced ht hts).mpr hx')
    | commonType ns key =>
      exact apart (h.commonType?_eq_none ns key ((commonType?_introduced hs ns key).mpr hx))
        ((commonType?_introduced ht ns key).mpr hx')
    | entityType ns key =>
      exact apart (h.entityType?_eq_none ns key ((entityType?_introduced hs ns key).mpr hx))
        ((entityType?_introduced ht ns key).mpr hx')
    | action ns key =>
      exact apart (h.action?_eq_none ns key ((action?_introduced hs ns key).mpr hx))
        ((action?_introduced ht ns key).mpr hx')
  · intro h
    have absent {α : Type} {o : Option α} (ho : ¬ o.isSome = true) : o = none :=
      Option.not_isSome_iff_eq_none.mp ho
    constructor
    case namespaces =>
      refine fun n hn ↦ absent fun hn' ↦ ?_
      exact h ((namespace_introduced hs hss).mp hn) ((namespace_introduced ht hts).mp hn')
    case commonTypes =>
      refine fun key hk ↦ absent fun hk' ↦ ?_
      exact h ((commonType?_introduced hs none key).mp hk)
        ((commonType?_introduced ht none key).mp hk')
    case entityTypes =>
      refine fun key hk ↦ absent fun hk' ↦ ?_
      exact h ((entityType?_introduced hs none key).mp hk)
        ((entityType?_introduced ht none key).mp hk')
    case actions =>
      refine fun key hk ↦ absent fun hk' ↦ ?_
      exact h ((action?_introduced hs none key).mp hk) ((action?_introduced ht none key).mp hk')

end

/-! ### Reading both -/

private theorem fault_of_addAll {source : Source} {f : Failure} :
    ∀ {items : List Item} {a : Assembly}, a.addAll source items = .error f →
      ∃ (item : Item) (s : Schema), f.cause.fault = item.statement.clash s
  | item :: items, a, h => by
    rw [Assembly.addAll] at h
    cases hadd : a.add source item with
    | error g =>
      rw [hadd] at h
      cases h
      exact ⟨item, _, (Assembly.add_eq_error hadd).1⟩
    | ok b =>
      rw [hadd] at h
      exact fault_of_addAll h

/-- The faults of items that introduce something again. -/
def clashes : List Fault :=
  [.duplicate .namespaceBlock, .duplicate .commonType, .duplicate .entityType, .duplicate .action,
    .enumConflict]

private theorem clash_mem_clashes (st : Statement) (s : Schema) : st.clash s ∈ clashes := by
  cases st with
  | entityType ns key body notes =>
    rw [Statement.clash]
    split
    · split <;> decide
    · decide
  | _ => simp [Statement.clash, clashes]

section

variable {source : Source} {eof : Token} {ss : List Statement}
  (heof : (scan source.text).ending = .ok eof)
  (h : IsDeclarations none ss ((scan source.text).tokens.map Token.symbol))

include heof h

private theorem read_isOk_iff :
    (∃ s, read source = .ok s) ↔ (ss.map Statement.introduced).Nodup := by
  constructor
  · rintro ⟨s, hs⟩
    obtain ⟨items, rest, hitems, rfl⟩ := itemsOf_of_isDeclarations heof h
    have hasm := (readUnder_eq_ok_iff.mp hs).1
    rw [hitems] at hasm
    exact assemble_isOk_iff.mp ⟨s, hasm⟩
  · intro hdiff
    obtain ⟨s, hs, -⟩ := read_of_isDeclarations source heof h hdiff
    exact ⟨s, hs⟩

private theorem fault_of_read_eq_error {e : Error} (he : read source = .error e) :
    e.cause.fault ∈ clashes := by
  obtain ⟨items, rest, hitems, -⟩ := itemsOf_of_isDeclarations heof h
  rw [read, readUnder] at he
  simp only [hitems, assemble] at he
  cases hasm : Assembly.empty.addAll source items with
  | error f =>
    rw [hasm] at he
    cases he
    obtain ⟨item, s, hf⟩ := fault_of_addAll hasm
    change f.cause.fault ∈ clashes
    rw [hf]
    exact clash_mem_clashes ..
  | ok a =>
    rw [hasm] at he
    cases he

end

/-- The text with a line break and another text after it. -/
def appendLine (file : String) (a b : Source) : Source := ⟨file, a.text ++ "\n" ++ b.text⟩

private theorem isDeclarations_appendLine (file : String) {a b : Source} {eof eof' : Token}
    (ha : (scan a.text).ending = .ok eof) (hb : (scan b.text).ending = .ok eof')
    {ss ts : List Statement} (hss : IsDeclarations none ss ((scan a.text).tokens.map Token.symbol))
    (hts : IsDeclarations none ts ((scan b.text).tokens.map Token.symbol)) :
    ∃ last, (scan (appendLine file a b).text).ending = .ok last ∧
      IsDeclarations none (ss ++ ts)
        ((scan (appendLine file a b).text).tokens.map Token.symbol) := by
  have hscans := ScansAs.append_line ha (scansAs_of_scan hb)
  have htext : (appendLine file a b).text.toList = a.text.toList ++ '\n' :: b.text.toList := by
    simp [appendLine]
  obtain ⟨last, tokens, hscan, htokens⟩ := hscans .start _ (Nat.le_refl _)
  rw [← htext] at hscan
  have hscan : scan (appendLine file a b).text = ⟨tokens, .ok last⟩ := hscan
  rw [hscan]
  refine ⟨last, rfl, ?_⟩
  dsimp only
  rw [htokens]
  exact hss.append hts

/-- Two texts that can be read are read together exactly if their schemas are separate, as the
merged schema and in either order. Otherwise something is introduced again. -/
theorem read_appendLine (file : String) {a b : Source} {s t : Schema} (ha : read a = .ok s)
    (hb : read b = .ok t) :
    ((∃ all, read (appendLine file a b) = .ok all) ↔ s.Separate t) ∧
    (∀ all, read (appendLine file a b) = .ok all → all.agrees (s.merge t) = true ∧
      ∃ swapped, read (appendLine file b a) = .ok swapped ∧ all.agrees swapped = true) ∧
    (¬ s.Separate t →
      ∃ e, read (appendLine file a b) = .error e ∧ e.cause.fault ∈ clashes) := by
  have hself (s : Schema) : s.agrees s = true := by simp [Schema.agrees]
  obtain ⟨eof, ss, heof, hss, hdiff, hs⟩ := (read_iff_derives a s).mp ⟨s, ha, hself s⟩
  obtain ⟨eof', ts, heof', hts, hdiff', ht⟩ := (read_iff_derives b t).mp ⟨t, hb, hself t⟩
  obtain ⟨last, hlast, hall⟩ := isDeclarations_appendLine file heof heof' hss hts
  obtain ⟨last', hlast', hall'⟩ := isDeclarations_appendLine file heof' heof hts hss
  have hseparate := separate_iff hs hss ht hts
  have hnodup : ((ss ++ ts).map Statement.introduced).Nodup ↔ s.Separate t := by
    rw [List.map_append, List.nodup_append', hseparate]
    exact ⟨fun h ↦ h.2.2, fun h ↦ ⟨hdiff, hdiff', h⟩⟩
  have hnodup' : ((ts ++ ss).map Statement.introduced).Nodup ↔ s.Separate t := by
    rw [← hnodup]
    exact (List.perm_append_comm.map _).nodup_iff
  have hok : (∃ all, read (appendLine file a b) = .ok all) ↔ s.Separate t :=
    (read_isOk_iff hlast hall).trans hnodup
  refine ⟨hok, fun all hread ↦ ?_, fun hshared ↦ ?_⟩
  · have hsep := hok.mp ⟨all, hread⟩
    obtain ⟨_, hread', hholds⟩ := read_of_isDeclarations _ hlast hall (hnodup.mpr hsep)
    obtain rfl := Except.ok.inj (hread'.symm.trans hread)
    obtain ⟨swapped, hswapped, hholds'⟩ :=
      read_of_isDeclarations _ hlast' hall' (hnodup'.mpr hsep)
    exact ⟨hholds.agrees (hs.merge ht hsep), swapped, hswapped,
      hholds.agrees (hholds'.of_perm List.perm_append_comm)⟩
  · cases hread : read (appendLine file a b) with
    | ok all => exact absurd (hok.mp ⟨all, hread⟩) hshared
    | error e => exact ⟨e, rfl, fault_of_read_eq_error hlast hall hread⟩

/-- An entity type and an action of one name do not clash. -/
theorem read_appendLine_photo :
    ∃ s t all, read ⟨"", "entity Photo;"⟩ = .ok s ∧ read ⟨"", "action Photo;"⟩ = .ok t ∧
      read ⟨"", "entity Photo;\naction Photo;"⟩ = .ok all ∧ all.agrees (s.merge t) = true := by
  let a : Source := ⟨"", "entity Photo;"⟩
  let b : Source := ⟨"", "action Photo;"⟩
  have hs : (read a).toOption.isSome = true := by decide +kernel
  have ht : (read b).toOption.isSome = true := by decide +kernel
  have hall : (read (appendLine "" a b)).toOption.isSome = true := by decide +kernel
  obtain ⟨s, hs⟩ := Option.isSome_iff_exists.mp hs
  obtain ⟨t, ht⟩ := Option.isSome_iff_exists.mp ht
  obtain ⟨all, hall⟩ := Option.isSome_iff_exists.mp hall
  rw [Except.toOption_eq_some_iff] at hs ht hall
  exact ⟨s, t, all, hs, ht, hall, ((read_appendLine "" hs ht).2.1 all hall).1⟩

end Text

end PolicySchema
