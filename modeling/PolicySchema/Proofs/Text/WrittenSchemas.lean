import PolicySchema.Proofs.Text.WrittenDeclarations

/-!
# Writing schemas

The pieces of a schema scan as their symbols, and these symbols are what the grammar derives for the
statements of the schema in its normal form, if the text form can hold the schema.
-/

namespace PolicySchema.Text.Writing

open Syntax

variable {ps : List Piece} {name : Option Name} {ns : Namespace}

/-! ### Scanning -/

private theorem sealed_namespaceDeclarations (indent : Nat) (ns : Namespace) :
    ∀ ps ∈ namespaceDeclarations indent ns, Sealed ps := by
  rw [Namespace.namespaceDeclarations_eq_map]
  exact List.forall_mem_map.mpr fun m _ ↦ sealed_parts indent m

private theorem sealed_separated {blocks : List (List Piece)} (h : ∀ ps ∈ blocks, Sealed ps) :
    Sealed (separated blocks) := by
  rw [separated]
  induction blocks with
  | nil => exact sealed_nil
  | cons ps blocks ih =>
    have hps := h ps List.mem_cons_self
    have hrest := ih fun qs hqs ↦ h qs (List.mem_cons_of_mem _ hqs)
    cases blocks with
    | nil => simpa using hps
    | cons qs blocks => simpa using hps.append (sealed_newline hrest)

/-- Empty lines between blocks show nothing. -/
theorem symbolsOf_separated (blocks : List (List Piece)) :
    symbolsOf (separated blocks) = blocks.flatMap symbolsOf := by
  rw [separated]
  induction blocks with
  | nil => rfl
  | cons ps blocks ih =>
    cases blocks with
    | nil => simp
    | cons qs blocks =>
      rw [List.flatMap_cons, ← ih]
      simp [newline]

private theorem sealed_namespaceParts (name : Option Name) (ns : Namespace) :
    Sealed (namespaceParts name ns) := by
  cases name with
  | none => exact sealed_separated (sealed_namespaceDeclarations 0 ns)
  | some n =>
    have hdeclarations := sealed_separated (sealed_namespaceDeclarations indentStep ns)
    have hclose := hdeclarations.append
      (Sealed.mark .rightBrace (by decide) (sealed_newline sealed_nil))
    have hopen := (scans_nameParts n).append
      (sealed_space (Sealed.mark .leftBrace (by decide) (sealed_newline hclose))) (breaks_space _)
    have hword : Scans [.word "namespace"] := scans_word (by decide)
    have hline := hword.append (sealed_space hopen) (breaks_space _)
    have hall := (sealed_annotationsParts 0 ns.annotations).append hline
    rw [namespaceParts]
    simpa using hall

/-- A written schema is sealed. -/
theorem sealed_schemaParts (s : Schema) : Sealed (schemaParts s) := by
  rw [schemaParts]
  refine sealed_separated fun ps hps ↦ ?_
  obtain ⟨⟨name, ns⟩, -, rfl⟩ := List.mem_map.mp hps
  exact sealed_namespaceParts name ns

/-! ### Namespaces -/

/-- The declarations of a namespace are written one after another. -/
theorem symbolsOf_namespaceDeclarations (indent : Nat) (ns : Namespace) :
    symbolsOf (separated (namespaceDeclarations indent ns)) =
      ns.members.flatMap fun m ↦ symbolsOf (m.parts indent) := by
  rw [symbolsOf_separated, Namespace.namespaceDeclarations_eq_map, List.flatMap_map]

/-- A named namespace is written as a block around its declarations. -/
theorem symbolsOf_namespaceParts_some (n : Name) (ns : Namespace) :
    symbolsOf (namespaceParts (some n) ns) = symbolsOf (annotationsParts 0 ns.annotations) ++
      .word "namespace" :: symbolsOf (nameParts n) ++ .mark .leftBrace ::
        (ns.members.flatMap fun m ↦ symbolsOf (m.parts indentStep)) ++ [.mark .rightBrace] := by
  simp only [namespaceParts, symbolsOf_append, symbolsOf_namespaceDeclarations]
  simp [newline, space]

/-- The statements of the normal form are those of the members in their normal form. -/
theorem declarations_mapRefs (f : TypeRef → TypeRef) (name : Option Name) (ns : Namespace) :
    (ns.mapRefs f).declarations name = ns.members.map fun m ↦ (m.mapRefs f).statement name := by
  rw [Namespace.declarations_eq_map, Namespace.members_mapRefs, List.map_map]
  rfl

/-- A namespace is written as its normal form, if the text form can hold its types. -/
theorem isDeclarations_namespaceParts (h : ∀ m ∈ ns.members, ∀ t ∈ m.types, Vetted t)
    (hwf : ns.WellFormed TypeRef.IsWritable) :
    IsDeclarations none ((ns.mapRefs TypeRef.normal).statements name)
      (symbolsOf (namespaceParts name ns)) := by
  cases name with
  | none =>
    rw [namespaceParts, symbolsOf_namespaceDeclarations, Namespace.statements, declarations_mapRefs]
    exact isDeclarations_parts 0 none h hwf.member
  | some n =>
    have hblock : IsDeclaration none _ _ := .block (isNotes_annotationsParts 0 ns.annotations)
      (isPath_nameParts n) (isDeclarations_parts indentStep (some n) h hwf.member)
    have hone := IsDeclarations.more hblock .none
    rw [List.append_nil, List.append_nil] at hone
    rw [symbolsOf_namespaceParts_some, Namespace.statements, declarations_mapRefs]
    exact hone

/-! ### Schemas -/

private theorem hasDeclarations_mapRefs (f : TypeRef → TypeRef) (ns : Namespace) :
    (ns.mapRefs f).hasDeclarations = ns.hasDeclarations := by
  simp [Namespace.hasDeclarations, Namespace.mapRefs, Table.isEmpty, Table.map, Table.mapEntries]

/-- The namespaces that are written: all but an anonymous one that declares nothing. -/
def writtenNamespaces (s : Schema) : List (Option Name × Namespace) :=
  s.namespaces.entries.filter fun (name, ns) ↦ name.isSome || ns.hasDeclarations

private theorem entries_normal (s : Schema) :
    s.normal.namespaces.entries =
      (writtenNamespaces s).map fun (name, ns) ↦ (name, ns.mapRefs TypeRef.normal) := by
  simp [writtenNamespaces, Schema.normal, Schema.mapRefs, Table.filter, Table.map,
    Table.mapEntries, List.filter_map, Function.comp_def, hasDeclarations_mapRefs]

/-- The normal form of a schema states what the namespaces that are written state in theirs. -/
theorem statements_normal (s : Schema) : s.normal.statements =
    (writtenNamespaces s).flatMap fun e ↦ (e.2.mapRefs TypeRef.normal).statements e.1 := by
  rw [Schema.statements, entries_normal, List.flatMap_map]

/-- The namespaces of a schema are written one after another. -/
theorem symbolsOf_schemaParts (s : Schema) : symbolsOf (schemaParts s) =
    (writtenNamespaces s).flatMap fun e ↦ symbolsOf (namespaceParts e.1 e.2) := by
  rw [schemaParts, symbolsOf_separated, List.flatMap_map]
  rfl

/-- Namespaces are written as their normal forms, if the text form can hold their types. -/
theorem isDeclarations_namespaces {l : List (Option Name × Namespace)}
    (h : ∀ e ∈ l, ∀ m ∈ e.2.members, ∀ t ∈ m.types, Vetted t)
    (hwf : ∀ e ∈ l, e.2.WellFormed TypeRef.IsWritable) :
    IsDeclarations none (l.flatMap fun e ↦ (e.2.mapRefs TypeRef.normal).statements e.1)
      (l.flatMap fun e ↦ symbolsOf (namespaceParts e.1 e.2)) := by
  induction l with
  | nil => exact .none
  | cons e l ih =>
    rw [List.forall_mem_cons] at h hwf
    rw [List.flatMap_cons, List.flatMap_cons]
    exact IsDeclarations.append (isDeclarations_namespaceParts h.1 hwf.1) (ih h.2 hwf.2)

/-- A schema that the text form can hold is written as its normal form. -/
theorem isDeclarations_schemaParts {s : Schema} (h : vetSchema s = .ok ())
    (hwf : s.WellFormed TypeRef.IsWritable) :
    IsDeclarations none s.normal.statements (symbolsOf (schemaParts s)) := by
  rw [statements_normal, symbolsOf_schemaParts]
  refine isDeclarations_namespaces (fun e he ↦ ?_) (fun e he ↦ ?_)
  · exact (vetSchema_eq_ok_iff.mp h e (List.mem_filter.mp he).1).2
  · exact hwf e.1 e.2 (List.mem_filter.mp he).1

/-- The anonymous namespace of a schema that the text form can hold declares something in the normal
form, and has no annotations. -/
theorem anonymous_normal {s : Schema} (h : vetSchema s = .ok ()) :
    ∀ ns, s.normal.namespace? none = some ns →
      ns.hasDeclarations = true ∧ ns.annotations = ∅ := by
  intro ns hns
  rw [Schema.namespace?, Table.find?_eq_some_iff, entries_normal, List.mem_map] at hns
  obtain ⟨⟨name, old⟩, hold, heq⟩ := hns
  obtain ⟨rfl, rfl⟩ := Prod.mk.inj heq
  obtain ⟨hmem, hdeclares⟩ := List.mem_filter.mp hold
  refine ⟨?_, (vetSchema_eq_ok_iff.mp h _ hmem).1 rfl⟩
  rw [hasDeclarations_mapRefs]
  simpa using hdeclares

end PolicySchema.Text.Writing
