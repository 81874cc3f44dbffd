import PolicySchema.Proofs.Document.Loaded
import PolicySchema.Proofs.Text.RoundTrip

/-!
# Texts written from documents

A schema that is read from a document is written without regard to names in the namespace of the
built-in types. What is written is read again if each such name names a built-in type
(`read_converted`), and need not be read otherwise.
-/

namespace PolicySchema

open Text (entityTypeExprs actionTypeExprs)

/-- The name that a reference looks up, if it looks up one. -/
def TypeRef.name? : TypeRef → Option Name
  | entity n | common n | entityOrCommon n => some n
  | primitive _ | extension _ => none

/-- A reference can be read where it is written if its name can, or else if the extension type that
it is to is known. -/
theorem TypeRef.isWritable_of_name? {r : TypeRef} (hknown : r.IsKnown)
    (h : ∀ n ∈ r.name?, n.IsWritable) : r.IsWritable := by
  cases r with
  | primitive p => trivial
  | entity n => exact h n rfl
  | common n => exact h n rfl
  | entityOrCommon n => exact h n rfl
  | extension id => exact hknown

variable {P Q : TypeRef → Prop}

/-! ### References -/

private theorem EntityType.WellFormed.of_leaves {e : EntityType} (he : e.WellFormed P)
    (h : ∀ t ∈ entityTypeExprs e, ∀ r ∈ t.leaves, P r → Q r) : e.WellFormed Q := by
  cases e with
  | standard memberOf shape tags =>
    refine ⟨fun r hr ↦ (he.1 r hr).of_leaves (h _ ?_), fun t ht ↦ (he.2 t ht).of_leaves (h _ ?_)⟩
    · exact List.mem_append_left _ (Option.mem_toList.mpr (Option.mem_map_of_mem _ hr))
    · exact List.mem_append_right _ (Option.mem_toList.mpr ht)
  | enumerated first others => exact he

private theorem Action.WellFormed.of_leaves {a : Action} (ha : a.WellFormed P)
    (h : ∀ t ∈ actionTypeExprs a, ∀ r ∈ t.leaves, P r → Q r) : a.WellFormed Q := by
  intro block hblock t ht
  refine (ha block hblock t ht).of_leaves (h t ?_)
  exact Option.mem_toList.mpr (Option.mem_bind_iff.mpr ⟨block, hblock, ht⟩)

/-- A well-formed schema stays so when something else is asked of each reference in a type. -/
theorem Schema.WellFormed.of_leaves {s : Schema} (hs : s.WellFormed P)
    (h : ∀ p ∈ s.types, ∀ r ∈ p.2.leaves, P r → Q r) : s.WellFormed Q := by
  intro name ns hns
  have htypes : ∀ p ∈ ns.types, ∀ r ∈ p.2.leaves, P r → Q r := fun p hp ↦
    h p (List.mem_flatMap.mpr ⟨_, hns, hp⟩)
  simp only [Namespace.types, List.forall_mem_append, List.forall_mem_map,
    List.forall_mem_flatMap] at htypes
  obtain ⟨⟨hcommon, hentity⟩, haction⟩ := htypes
  have hns' := hs name ns hns
  exact {
    commonTypes := fun key d hd ↦ (hns'.commonTypes key d hd).of_leaves (hcommon (key, d) hd)
    entityTypes := fun key d hd ↦ (hns'.entityTypes key d hd).of_leaves (hentity (key, d) hd)
    actions := fun key d hd ↦ (hns'.actions key d hd).of_leaves (haction (key, d) hd) }

/-! ### Texts -/

namespace Document

/-- A text that is written for a schema from a document is read, if each name that is written in a
type and is one of the namespace of the built-in types names such a type. -/
theorem read_converted (file : String) {bytes : List UInt8} {s : Schema} {text : String}
    (h : readBytes bytes = .ok s) (hwrite : Text.write s = .ok text)
    (hnames : ∀ p ∈ s.types, ∀ r ∈ p.2.leaves, ∀ n ∈ r.name?, n.IsWritable) :
    ∃ s', Text.read ⟨file, text⟩ = .ok s' := by
  obtain ⟨d, hd⟩ := exists_toSchema_of_readBytes h
  obtain ⟨hwf, -, -⟩ := loaded_toSchema hd
  have hwritable : s.WellFormed TypeRef.IsWritable :=
    hwf.of_leaves fun p hp r hr hdocumented ↦
      TypeRef.isWritable_of_name? hdocumented.1 (hnames p hp r hr)
  obtain ⟨hvet, rfl⟩ := Text.vetSchema_of_write hwrite
  obtain ⟨s', hread, -⟩ := Text.exists_read_render file hwritable hvet
  exact ⟨s', hread⟩

private def taggedWith (name : String) : String :=
  "\x7b\"\": \x7b\"entityTypes\": \x7b\"Visit\": \x7b\"tags\": " ++
    "\x7b\"type\": \"EntityOrCommon\", \"name\": \"" ++ name ++
    "\"\x7d\x7d\x7d, \"actions\": \x7b\x7d\x7d\x7d"

/-- The full name of an extension type is written and read. -/
theorem read_converted_address :
    let id : Identifier := ⟨"ipaddr", by decide⟩
    let name : Name := ⟨[Name.builtinNamespace], id⟩
    let s : Schema := ⟨.ofList [(none, { Namespace.empty with
      entityTypes := .ofList [(⟨"Visit", by decide⟩,
        ⟨.standard [] none (some (.leaf (.entityOrCommon name))), ∅, none⟩)] })]⟩
    let text := "entity Visit tags __cedar::ipaddr;\n"
    readBytes (taggedWith "__cedar::ipaddr").toUTF8.data.toList = .ok s ∧
      Text.write s = .ok text ∧ ∃ s', Text.read ⟨"visit.cedarschema", text⟩ = .ok s' := by
  intro id name s text
  have hread : readBytes (taggedWith "__cedar::ipaddr").toUTF8.data.toList = .ok s := by
    rw [readBytes_toUTF8]
    decide +kernel
  have hwrite : Text.write s = .ok text := by decide +kernel
  refine ⟨hread, hwrite, read_converted _ hread hwrite fun p hp r hr n hn ↦ ?_⟩
  obtain rfl := List.mem_singleton.mp hp
  obtain rfl := List.mem_singleton.mp hr
  obtain rfl := Option.some.inj hn
  intro id' hid
  obtain rfl := Option.some.inj hid
  exact .inr (by decide)

/-- A name in the namespace of the built-in types that names none of them is written too, but what
is written is not read. -/
example :
    let text := "entity Visit tags __cedar::Guest;\n"
    (read (taggedWith "__cedar::Guest").toList).toOption.map Text.write = some (.ok text) ∧
      (Text.read ⟨"visit.cedarschema", text⟩).toOption = none := by
  decide +kernel

end Document

end PolicySchema
