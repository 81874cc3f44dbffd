import PolicySchema.Proofs.Table
import PolicySchema.Proofs.Text.Syntax

/-!
# What a schema states

A schema is listed as statements: the block of each named namespace, and each of its declarations.
The schema holds them (`Schema.holds_statements`), and no two of them introduce the same thing.
-/

namespace PolicySchema

open Text

/-- What the declarations of a namespace state about it. -/
def Namespace.declarations (name : Option Name) (ns : Namespace) : List Statement :=
  (ns.commonTypes.entries.map fun (key, d) ↦ .commonType name key d.body d.annotations) ++
  (ns.entityTypes.entries.map fun (key, d) ↦ .entityType name key d.body d.annotations) ++
  (ns.actions.entries.map fun (key, d) ↦ .action name key d.body d.annotations)

/-- What a namespace states, which has a block if it is named. -/
def Namespace.statements : Option Name → Namespace → List Statement
  | none, ns => ns.declarations none
  | some n, ns => .block n ns.annotations :: ns.declarations (some n)

/-- What a schema states. -/
def Schema.statements (s : Schema) : List Statement :=
  s.namespaces.entries.flatMap fun (name, ns) ↦ ns.statements name

variable {s : Schema} {name : Option Name} {ns : Namespace} {t : Statement}

/-! ### Membership -/

private theorem mem_declarations_iff : t ∈ ns.declarations name ↔
    (∃ key d, ns.commonTypes.find? key = some d ∧
      .commonType name key d.body d.annotations = t) ∨
    (∃ key d, ns.entityTypes.find? key = some d ∧
      .entityType name key d.body d.annotations = t) ∨
    (∃ key d, ns.actions.find? key = some d ∧ .action name key d.body d.annotations = t) := by
  simp [Namespace.declarations, Table.find?_eq_some_iff]

private theorem mem_namespace_iff : t ∈ ns.statements name ↔
    (∃ n, name = some n ∧ t = .block n ns.annotations) ∨ t ∈ ns.declarations name := by
  cases name <;> simp [Namespace.statements]

private theorem mem_statements_iff : t ∈ s.statements ↔
    ∃ name ns, s.namespace? name = some ns ∧ t ∈ ns.statements name := by
  simp [Schema.statements, Schema.namespace?, Table.find?_eq_some_iff]

private theorem about_of_mem (h : t ∈ ns.statements name) : t.about = name := by
  rcases mem_namespace_iff.mp h with ⟨n, rfl, rfl⟩ | h
  · rfl
  · rcases mem_declarations_iff.mp h with ⟨key, d, -, rfl⟩ | ⟨key, d, -, rfl⟩ | ⟨key, d, -, rfl⟩ <;>
      rfl

private theorem block_mem_iff {n : Name} {notes : Annotations} :
    .block n notes ∈ s.statements ↔
      ∃ ns, s.namespace? (some n) = some ns ∧ notes = ns.annotations := by
  simp only [mem_statements_iff, mem_namespace_iff, mem_declarations_iff, reduceCtorEq, and_false,
    exists_false, or_false, Statement.block.injEq]
  constructor
  · rintro ⟨_, ns, hns, _, rfl, rfl, h⟩
    exact ⟨ns, hns, h⟩
  · rintro ⟨ns, hns, h⟩
    exact ⟨_, ns, hns, n, rfl, rfl, h⟩

private theorem declared_iff {κ α : Type} [Ord κ] {table : Namespace → Table κ (Declaration α)}
    {key : κ} {body : α} {notes : Annotations} :
    (∃ name' ns, s.namespace? name' = some ns ∧ ∃ key' d, (table ns).find? key' = some d ∧
      name' = name ∧ key' = key ∧ d.body = body ∧ d.annotations = notes) ↔
    ∃ place, ((s.namespace? name).bind fun ns ↦ (table ns).find? key) =
      some ⟨body, notes, place⟩ := by
  simp only [Option.bind_eq_some_iff]
  constructor
  · rintro ⟨_, ns, hns, _, ⟨_, _, place⟩, hd, rfl, rfl, rfl, rfl⟩
    exact ⟨place, ns, hns, hd⟩
  · rintro ⟨place, ns, hns, hd⟩
    exact ⟨name, ns, hns, key, _, hd, rfl, rfl, rfl, rfl⟩

private theorem commonType_mem_iff {key : Identifier} {body : TypeExpr TypeRef}
    {notes : Annotations} : .commonType name key body notes ∈ s.statements ↔
      ∃ place, s.commonType? name key = some ⟨body, notes, place⟩ := by
  rw [Schema.commonType?, ← declared_iff]
  simp [mem_statements_iff, mem_namespace_iff, mem_declarations_iff]

private theorem entityType_mem_iff {key : Identifier} {body : EntityType} {notes : Annotations} :
    .entityType name key body notes ∈ s.statements ↔
      ∃ place, s.entityType? name key = some ⟨body, notes, place⟩ := by
  rw [Schema.entityType?, ← declared_iff]
  simp [mem_statements_iff, mem_namespace_iff, mem_declarations_iff]

private theorem action_mem_iff {key : String} {body : Action} {notes : Annotations} :
    .action name key body notes ∈ s.statements ↔
      ∃ place, s.action? name key = some ⟨body, notes, place⟩ := by
  rw [Schema.action?, ← declared_iff]
  simp [mem_statements_iff, mem_namespace_iff, mem_declarations_iff]

/-! ### What a schema holds -/

private theorem exists_mem_declarations (h : ns.hasDeclarations = true) (name : Option Name) :
    ∃ t, t ∈ ns.declarations name := by
  apply List.exists_mem_of_ne_nil
  intro hnil
  simp_all [Namespace.declarations, Namespace.hasDeclarations, Table.isEmpty]

/-- A schema whose anonymous namespace declares something without annotations holds what it
states. -/
theorem Schema.holds_statements
    (h : ∀ ns, s.namespace? none = some ns → ns.hasDeclarations = true ∧ ns.annotations = ∅) :
    s.Holds s.statements where
  namespaces name := by
    constructor
    · intro hname
      obtain ⟨ns, hns⟩ := Option.isSome_iff_exists.mp hname
      obtain ⟨t, ht⟩ : ∃ t, t ∈ ns.statements name := by
        cases name with
        | none => exact exists_mem_declarations (h ns hns).1 none
        | some n => exact ⟨_, List.mem_cons_self⟩
      exact ⟨t, mem_statements_iff.mpr ⟨name, ns, hns, ht⟩, about_of_mem ht⟩
    · rintro ⟨t, ht, rfl⟩
      obtain ⟨name, ns, hns, ht⟩ := mem_statements_iff.mp ht
      rw [about_of_mem ht, hns]
      rfl
  annotated n notes hn := by
    obtain ⟨ns, hns, rfl⟩ := block_mem_iff.mp hn
    rw [Schema.annotations, hns]
    rfl
  unannotated name hname := by
    rw [Schema.annotations]
    cases hns : s.namespace? name with
    | none => rfl
    | some ns =>
      cases name with
      | none => exact (h ns hns).2
      | some n => exact absurd rfl (hname n _ (block_mem_iff.mpr ⟨ns, hns, rfl⟩))
  commonTypes _ _ _ _ := commonType_mem_iff.symm
  entityTypes _ _ _ _ := entityType_mem_iff.symm
  actions _ _ _ _ := action_mem_iff.symm

/-! ### What a schema introduces -/

private theorem about_of_introduced {a b : Statement} (h : a.introduced = b.introduced) :
    a.about = b.about := by
  cases a <;> cases b <;> simp_all [Statement.introduced, Statement.about]

private theorem pairwise_entries {κ α : Type} [Ord κ] [Std.TransOrd κ] [Std.LawfulEqOrd κ]
    (t : Table κ α) {f : κ × α → Statement}
    (h : ∀ a b, (f a).introduced = (f b).introduced → a.1 = b.1) :
    (t.entries.map f).Pairwise fun a b ↦ a.introduced ≠ b.introduced := by
  have hkeys : (t.entries.map Prod.fst).Nodup := t.keys_nodup
  rw [List.nodup_iff_pairwise_ne, List.pairwise_map] at hkeys
  rw [List.pairwise_map]
  exact hkeys.imp fun hne hf ↦ hne (h _ _ hf)

private theorem pairwise_declarations (name : Option Name) (ns : Namespace) :
    (ns.declarations name).Pairwise fun a b ↦ a.introduced ≠ b.introduced := by
  rw [Namespace.declarations]
  refine List.pairwise_append.mpr ⟨List.pairwise_append.mpr ⟨?_, ?_, ?_⟩, ?_, ?_⟩
  · exact pairwise_entries _ (by simp [Statement.introduced])
  · exact pairwise_entries _ (by simp [Statement.introduced])
  · intro a ha b hb
    obtain ⟨c, -, rfl⟩ := List.mem_map.mp ha
    obtain ⟨d, -, rfl⟩ := List.mem_map.mp hb
    exact Introduced.noConfusion
  · exact pairwise_entries _ (by simp [Statement.introduced])
  · intro a ha b hb
    obtain ⟨d, -, rfl⟩ := List.mem_map.mp hb
    rcases List.mem_append.mp ha with ha | ha
    · obtain ⟨c, -, rfl⟩ := List.mem_map.mp ha
      exact Introduced.noConfusion
    · obtain ⟨c, -, rfl⟩ := List.mem_map.mp ha
      exact Introduced.noConfusion

private theorem pairwise_namespace (name : Option Name) (ns : Namespace) :
    (ns.statements name).Pairwise fun a b ↦ a.introduced ≠ b.introduced := by
  cases name with
  | none => exact pairwise_declarations none ns
  | some n =>
    refine List.pairwise_cons.mpr ⟨?_, pairwise_declarations (some n) ns⟩
    intro t ht
    rcases mem_declarations_iff.mp ht with
      ⟨key, d, -, rfl⟩ | ⟨key, d, -, rfl⟩ | ⟨key, d, -, rfl⟩ <;> exact Introduced.noConfusion

/-- No two statements of a schema introduce the same thing. -/
theorem Schema.nodup_introduced (s : Schema) :
    (s.statements.map Statement.introduced).Nodup := by
  have hkeys : (s.namespaces.entries.map Prod.fst).Nodup := s.namespaces.keys_nodup
  rw [List.nodup_iff_pairwise_ne, List.pairwise_map] at hkeys ⊢
  refine List.pairwise_flatMap.mpr ⟨fun e _ ↦ pairwise_namespace e.1 e.2, ?_⟩
  refine hkeys.imp ?_
  intro a b hne t ht u hu h
  have habout := about_of_introduced h
  rw [about_of_mem ht, about_of_mem hu] at habout
  exact hne habout

end PolicySchema
