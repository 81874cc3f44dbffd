import PolicySchema.Proofs.Document.Loaded
import PolicySchema.Proofs.Text.Loaded
import PolicySchema.Proofs.Text.Words

/-!
# Schemas that are read are well formed

What is read from either form has identifiers, extension types, values and depths as they should be
(`Schema.IsSound`). Beyond that, each form leaves out some references and annotations that a schema
could hold: a text does not tell the kinds of names apart (`Schema.IsOfText`), and a document has
only one place for the annotations of a declaration (`Schema.IsOfDocument`).
-/

namespace PolicySchema

/-! ### What is known of a schema -/

/-- What a schema that is read from either form satisfies. -/
structure Schema.IsSound (s : Schema) : Prop where
  identifiers : ∀ id ∈ s.identifiers, isWord id.text = true ∧ id.text ≠ reservedWord
  extensions : ∀ p ∈ s.types, ∀ id, .extension id ∈ p.2.leaves → isKnownExtension id.text = true
  values : ∀ e ∈ s.entityTypes, ∀ values ∈ e.2.2.body.values?, values ≠ [] ∧ values.Nodup
  depth : ∀ p ∈ s.types, p.2.depth ≤ 32

/-- The reference can stand in a schema that is read from a text. Its kind is left open if it is a
name, which is then not one that a built-in type has or could have. -/
def TypeRef.IsOfText : TypeRef → Prop
  | .entity _ | .common _ => False
  | .entityOrCommon n =>
    n.builtin? = none ∧ (n.isBare = true → n.basename.text ∉ ["String", "Long", "Bool"])
  | .primitive _ | .extension _ => True

/-- The reference can stand in a schema that is read from a document. The name of a common type is
not one of the fixed values of `type`. -/
def TypeRef.IsOfDocument : TypeRef → Prop
  | .common n => n.text ∉ Document.fixedTypes
  | _ => True

/-- What a schema that is read from a text satisfies. Each of its identifiers is a word token, no
record in it has annotations, and it has an anonymous namespace only for declarations. -/
structure Schema.IsOfText (source : Source) (s : Schema) : Prop where
  words : ∀ id ∈ s.identifiers,
    ∃ t ∈ (Text.scan source.text).tokens, t.kind = .word ∧ t.text = id.text
  references : ∀ p ∈ s.types, ∀ r ∈ p.2.leaves, r.IsOfText
  records : ∀ p ∈ s.types, p.2.IsPlain
  anonymous : ∀ ns, s.namespace? none = some ns → ns.annotations = ∅ ∧ ns.hasDeclarations = true

/-- What a schema that is read from a document satisfies. No record that is the value of an
attribute or of a common type has annotations of its own. -/
structure Schema.IsOfDocument (s : Schema) : Prop where
  references : ∀ p ∈ s.types, ∀ r ∈ p.2.leaves, r.IsOfDocument
  commonTypes : ∀ p ∈ s.types, p.1 = .commonType → ¬ p.2.IsAnnotatedRecord
  attributes : ∀ p ∈ s.types, ¬ p.2.HasAnnotatedAttribute

/-! ### Leaves and members -/

section

variable {ρ : Type} {P : ρ → Prop}

mutual

/-- Each leaf of a well-formed type is as it should be. -/
theorem TypeExpr.WellFormed.leaves : ∀ {t : TypeExpr ρ}, t.WellFormed P → ∀ r ∈ t.leaves, P r
  | .leaf _, h => List.forall_mem_singleton.mpr h
  | .set element, h => TypeExpr.WellFormed.leaves (t := element) h
  | .record _ _, h => Fields.WellFormed.leaves h.2

/-- Each leaf of the types of well-formed attributes is as it should be. -/
theorem Fields.WellFormed.leaves : ∀ {f : Fields ρ}, f.WellFormed P → ∀ r ∈ f.leaves, P r
  | .nil, _ => nofun
  | .cons .., h => List.forall_mem_append.mpr ⟨h.1.leaves, h.2.leaves⟩

end

end

section

variable {P : TypeRef → Prop} {s : Schema}

private theorem Namespace.Member.WellFormed.types {m : Member} (h : m.WellFormed P) :
    ∀ t ∈ m.types, t.WellFormed P := by
  cases m with
  | commonType id d => exact List.forall_mem_singleton.mpr h
  | entityType id d =>
    obtain ⟨body, notes, place⟩ := d
    cases body with
    | standard memberOf shape tags => exact (Text.forall_mem_entityTypeExprs memberOf).mpr h
    | enumerated first others => exact nofun
  | action id d => exact Text.forall_mem_actionTypeExprs.mpr h

private theorem Schema.WellFormed.leaves (h : s.WellFormed P) :
    ∀ p ∈ s.types, ∀ r ∈ p.2.leaves, P r :=
  Schema.forall_mem_types.mpr fun e he m hm t ht ↦
    (((h e.1 e.2 he).member m hm).types t ht).leaves

private theorem Schema.WellFormed.values (h : s.WellFormed P) :
    ∀ e ∈ s.entityTypes, ∀ values ∈ e.2.2.body.values?, values ≠ [] ∧ values.Nodup := by
  simp only [Schema.entityTypes, List.forall_mem_flatMap, List.forall_mem_map]
  rintro ⟨name, ns⟩ hns ⟨key, body, notes, place⟩ he values hvalues
  have hbody := (h name ns hns).entityTypes key _ he
  cases body with
  | standard memberOf shape tags => cases hvalues
  | enumerated first others =>
    cases hvalues
    exact ⟨List.cons_ne_nil _ _, hbody⟩

end

/-! ### References -/

private theorem isOfText_of_means {n : Name} {r : TypeRef} (h : Text.Syntax.Means n r) :
    r.IsOfText := by
  cases h with
  | other hprimitive hbuiltin =>
    refine ⟨hbuiltin, fun hbare ↦ ?_⟩
    have hstring := hprimitive .string hbare
    have hlong := hprimitive .long hbare
    have hbool := hprimitive .bool hbare
    simp only [Primitive.text] at hstring hlong hbool
    simp [hstring, hlong, hbool]
  | _ => trivial

private theorem isOfText_of_isSettled {r : TypeRef} (h : r.IsSettled) : r.IsOfText := by
  have hnormal := h.normal
  have hwritable := h.writable
  cases r with
  | primitive p => trivial
  | extension id => trivial
  | entity n | common n | entityOrCommon n =>
    rw [TypeRef.normal] at hnormal
    rw [← hnormal]
    exact isOfText_of_means (Text.Syntax.means_asRef hwritable)

private theorem isOfDocument_of_isDocumented {r : TypeRef} (h : r.IsDocumented) :
    r.IsOfDocument := by
  cases r with
  | common n =>
    intro hfixed
    have hself := h.2
    rw [TypeRef.documented, if_pos (List.contains_iff_mem.mpr hfixed)] at hself
    cases hself
  | _ => trivial

private theorem isKnown_of_wellFormed {s : Schema} (h : s.WellFormed TypeRef.IsDocumented) :
    ∀ p ∈ s.types, ∀ id, .extension id ∈ p.2.leaves → isKnownExtension id.text = true :=
  fun p hp _ hid ↦ (h.leaves p hp _ hid).1

/-! ### Reading -/

private theorem reserved_ne (id : Identifier) : id.text ≠ reservedWord := by
  have hbare := id.bare
  rw [isBare, Bool.and_eq_true, bne_iff_ne] at hbare
  exact hbare.2

/-- Schemas that are read from texts and from documents are well formed. -/
theorem wellFormed_of_read :
    (∀ exhausted source s, Text.readUnder exhausted source = .ok s →
      s.IsSound ∧ s.IsOfText source) ∧
      ∀ bytes s, Document.readBytes bytes = .ok s → s.IsSound ∧ s.IsOfDocument := by
  constructor
  · intro exhausted source s h
    have hwords := Text.exists_word_of_readUnder h
    obtain ⟨hwf, htypes, hanonymous⟩ := Text.isSettled_of_readUnder h
    refine ⟨⟨fun id hid ↦ ⟨?_, reserved_ne id⟩, ?_, hwf.values, ?_⟩, hwords, ?_, ?_, hanonymous⟩
    · obtain ⟨t, ht, hkind, htext⟩ := hwords id hid
      exact htext ▸ Text.isWord_of_mem_scan ht hkind
    · exact isKnown_of_wellFormed (hwf.imp fun _ hr ↦ hr.documented)
    · exact fun p hp ↦ (htypes p hp).depth
    · exact fun p hp r hr ↦ isOfText_of_isSettled (hwf.leaves p hp r hr)
    · exact fun p hp ↦ (htypes p hp).plain
  · intro bytes s h
    obtain ⟨d, hd⟩ := Document.exists_toSchema_of_readBytes h
    obtain ⟨hwf, htypes, -⟩ := Document.loaded_toSchema hd
    have hknown := isKnown_of_wellFormed hwf
    refine ⟨⟨fun id _ ↦ ⟨?_, reserved_ne id⟩, hknown, hwf.values, ?_⟩, ?_, ?_, ?_⟩
    · exact (Bool.and_eq_true_iff.mp id.bare).1
    · exact fun p hp ↦ (htypes p hp).depth
    · exact fun p hp r hr ↦ isOfDocument_of_isDocumented (hwf.leaves p hp r hr)
    · exact fun p hp hplace ↦ (htypes p hp).own (by rw [hplace]; rfl)
    · exact fun p hp ↦ (htypes p hp).inside

/-- The identifiers of a text, one of which names a built-in type, and those of a document. -/
theorem wellFormed_of_read_values :
    let source : Source := ⟨"", "@k namespace A \x7b entity E enum [\"x\"];\n" ++
      "type T = \x7b at?: Set<__cedar::ipaddr> \x7d; \x7d"⟩
    let document := "\x7b\"A\":\x7b\"annotations\":\x7b\"k\":\"\"\x7d,\"entityTypes\":" ++
      "\x7b\"E\":\x7b\"enum\":[\"x\"]\x7d\x7d,\"actions\":\x7b\x7d\x7d\x7d"
    ∃ s s', Text.read source = .ok s ∧ s.IsSound ∧ s.IsOfText source ∧
      s.identifiers.map Identifier.text = ["A", "k", "T", "ipaddr", "E"] ∧
      Document.readBytes document.toUTF8.data.toList = .ok s' ∧ s'.IsSound ∧ s'.IsOfDocument ∧
      s'.identifiers.map Identifier.text = ["A", "k", "E"] := by
  intro source document
  have hread : (Text.read source).toOption.map (fun s ↦ s.identifiers.map Identifier.text) =
      some ["A", "k", "T", "ipaddr", "E"] := by decide +kernel
  have hread' : (Document.read document.toList).toOption.map
      (fun s ↦ s.identifiers.map Identifier.text) = some ["A", "k", "E"] := by decide +kernel
  rw [← Document.readBytes_toUTF8] at hread'
  obtain ⟨s, hs, htexts⟩ := Option.map_eq_some_iff.mp hread
  obtain ⟨s', hs', htexts'⟩ := Option.map_eq_some_iff.mp hread'
  rw [Except.toOption_eq_some_iff] at hs hs'
  obtain ⟨hsound, htext⟩ := wellFormed_of_read.1 .ample source s hs
  obtain ⟨hsound', hdocument⟩ := wellFormed_of_read.2 _ s' hs'
  exact ⟨s, s', hs, hsound, htext, htexts, hs', hsound', hdocument, htexts'⟩

end PolicySchema
