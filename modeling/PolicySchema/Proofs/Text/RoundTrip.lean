import PolicySchema.Proofs.Text.Acceptance
import PolicySchema.Proofs.Text.WrittenSchemas

/-!
# Reading what was written

The written form of a schema is read as its normal form.
-/

namespace PolicySchema.Text

open Syntax Writing

variable {s : Schema} {text : String}

/-- What is written for a schema is its rendered form, which can hold the schema. -/
theorem vetSchema_of_write (h : write s = .ok text) :
    vetSchema s = .ok () ∧ text = render s := by
  rw [write] at h
  cases hvet : vetSchema s with
  | error e =>
    rw [hvet] at h
    cases h
  | ok u =>
    rw [hvet] at h
    exact ⟨rfl, (Except.ok.inj h).symm⟩

/-- A rendered schema scans as its symbols. -/
theorem scan_render (s : Schema) : ∃ eof, (scan (render s)).ending = .ok eof ∧
    (scan (render s)).tokens.map Token.symbol = symbolsOf (schemaParts s) := by
  have hscans := sealed_schemaParts s scansAs_nil
  rw [List.append_nil, List.append_nil, ← toList_textOf] at hscans
  obtain ⟨eof, tokens, hscan, htokens⟩ := hscans Position.start _ (Nat.le_refl _)
  have hrender : scan (render s) = ⟨tokens, .ok eof⟩ := hscan
  rw [hrender]
  exact ⟨eof, rfl, htokens⟩

/-- A rendered schema is read as its normal form, but for places, if the text form can hold it and
its references can be read where they are written. -/
theorem exists_read_render (file : String) (hwf : s.WellFormed TypeRef.IsWritable)
    (hvet : vetSchema s = .ok ()) :
    ∃ s', read ⟨file, render s⟩ = .ok s' ∧ s'.agrees s.normal = true := by
  obtain ⟨eof, heof, htokens⟩ := scan_render s
  have hdecl := isDeclarations_schemaParts hvet hwf
  rw [← htokens] at hdecl
  obtain ⟨s', hread, hholds⟩ :=
    read_of_isDeclarations ⟨file, render s⟩ heof hdecl s.normal.nodup_introduced
  exact ⟨s', hread, hholds.agrees (Schema.holds_statements (anonymous_normal hvet))⟩

/-- What is written for a schema is read as its normal form, but for places, if the extension types
that the schema refers to are known and its names in the namespace of built-in types name one of
them. -/
theorem read_write (file : String) (hwf : s.WellFormed TypeRef.IsWritable)
    (h : write s = .ok text) :
    ∃ s', read ⟨file, text⟩ = .ok s' ∧ s'.agrees s.normal = true := by
  obtain ⟨hvet, rfl⟩ := vetSchema_of_write h
  exact exists_read_render file hwf hvet

-- The name of a set type and the reserved word as names: an entity type `Set` in itself, whose
-- attributes are a set of truth values under a quoted key and an address.
private def awkward : Namespace :=
  let set : Identifier := ⟨"Set", by decide⟩
  let truth : Name := ⟨[Name.builtinNamespace], ⟨"Boolean", by decide⟩⟩
  let fields : Fields TypeRef :=
    .cons "in" (.set (.leaf (.entity truth))) false ∅
      (.cons "tags" (.leaf (.extension ⟨"ipaddr", by decide⟩)) true ∅ .nil)
  { Namespace.empty with
    entityTypes := .ofList [(set, ⟨.standard [.bare set] (some ⟨fields, ∅⟩) none, ∅, none⟩)] }

private theorem wellFormed_awkward : awkward.WellFormed TypeRef.IsWritable where
  commonTypes _ _ h := absurd h List.not_mem_nil
  actions _ _ h := absurd h List.not_mem_nil
  entityTypes key d h := by
    obtain ⟨rfl, rfl⟩ := Prod.mk.inj (List.mem_singleton.mp h)
    refine ⟨?_, nofun⟩
    rintro _ ⟨⟩
    refine ⟨by simp [Ascending, Fields.toList]; decide, ?_, ?_, trivial⟩
    · intro id hid
      obtain rfl := Option.some.inj hid
      exact .inl (by decide)
    · change isKnownExtension "ipaddr" = true
      decide

/-- A namespace with awkward names beside an anonymous one without declarations is read back
without the latter, and with the truth value as a primitive type. -/
theorem read_write_awkward :
    let name : Name := .bare ⟨"Set", by decide⟩
    let s : Schema := ⟨.ofList [(none, .empty), (some name, awkward)]⟩
    let text := "namespace Set \x7b\n  entity Set in [Set] \x7b\n" ++
      "    \"in\"?: Set<__cedar::Boolean>,\n    tags: __cedar::ipaddr,\n  \x7d;\n\x7d\n"
    write s = .ok text ∧ s.normal ≠ s ∧
      ∃ s', read ⟨"set.cedarschema", text⟩ = .ok s' ∧ s'.agrees s.normal = true := by
  intro name s text
  have hwrite : write s = .ok text := by decide +kernel
  have hwf : s.WellFormed TypeRef.IsWritable := by
    intro key ns h
    have hentries : (key, ns) ∈ [(none, Namespace.empty), (some name, awkward)] := h
    rcases List.mem_cons.mp hentries with h | h
    · obtain ⟨rfl, rfl⟩ := Prod.mk.inj h
      exact ⟨fun _ _ h ↦ absurd h List.not_mem_nil, fun _ _ h ↦ absurd h List.not_mem_nil,
        fun _ _ h ↦ absurd h List.not_mem_nil⟩
    · obtain ⟨rfl, rfl⟩ := Prod.mk.inj (List.mem_singleton.mp h)
      exact wellFormed_awkward
  exact ⟨hwrite, by decide, read_write _ hwf hwrite⟩

end PolicySchema.Text
