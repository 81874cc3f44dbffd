import Mathlib.Data.List.TFAE
import Mathlib.Tactic.TFAE
import PolicySchema.Proofs.Document.Overdeep
import PolicySchema.Proofs.Nesting
import PolicySchema.Proofs.Text.Overdeep

/-!
# One limit for all stages

The check before a text is written, the writer of documents and the reader of texts count nesting
each in its own way: before a part is entered or after, from the outside or by what is left. They
draw the same line, and where they refuse a schema they refuse the same declaration
(`Schema.nesting_limit`).
-/

namespace PolicySchema

open Namespace (Member)

namespace Schema

/-- All stages refuse the schema for one declaration, the first with a type that nests too deep: the
error before the text is written names it, the path of the error in the JSON form leads into it, and
the text itself is refused for the same cause. -/
structure RefusedAt (file : String) (s : Schema) (name : Option Name) (ns : Namespace)
    (m : Member) : Prop where
  first : s.BreaksAt name ns m
  named : Text.write s = .error (.tooDeep (m.label name))
  located : ∃ e, Document.writeValue s = .error e ∧ e.IsOverdeepIn (m.path name)
  unread : ∃ e, Text.read ⟨file, Text.render s⟩ = .error e ∧ e.cause = .tooDeep

variable {s : Schema}

private theorem nestingDepth_le_iff :
    (∀ p ∈ s.types, p.2.nestingDepth ≤ TypeExpr.maxDepth) ↔ s.WithinDepth := by
  simp only [TypeExpr.nestingDepth_eq_depth]
  exact forall_mem_types

-- A schema beyond the limit is refused by all stages for the declaration where it first breaks it.
private theorem exists_refusedAt (file : String) (hwf : s.WellFormed TypeRef.IsWritable)
    (hplain : s.IsPlain) (h : ¬ s.WithinDepth) : ∃ name ns m, s.RefusedAt file name ns m := by
  obtain ⟨name, ns, m, hbreaks⟩ := exists_breaksAt h
  exact ⟨name, ns, m, {
    first := hbreaks
    named := Text.write_of_breaksAt hplain hbreaks
    located := Document.writeValue_of_breaksAt hplain hbreaks
    unread := Text.read_of_breaksAt file hplain hwf hbreaks }⟩

/-- All stages hold a schema to one limit, if its references can be read where they are written, and
none of its records has annotations, nor has its anonymous namespace. Its types measure no more than
the limit exactly if its text is written, exactly if it has a JSON value and exactly if its rendered
form is read. If one of them measures more, these three fail for one declaration. -/
theorem nesting_limit (file : String) (hwf : s.WellFormed TypeRef.IsWritable)
    (hplain : s.IsPlain) :
    [∀ p ∈ s.types, p.2.nestingDepth ≤ TypeExpr.maxDepth,
      ∃ text, Text.write s = .ok text,
      ∃ j, Document.writeValue s = .ok j,
      ∃ s', Text.read ⟨file, Text.render s⟩ = .ok s'].TFAE ∧
    (¬ (∀ p ∈ s.types, p.2.nestingDepth ≤ TypeExpr.maxDepth) →
      ∃ name ns m, s.RefusedAt file name ns m) := by
  rw [nestingDepth_le_iff]
  have hrefused := exists_refusedAt file hwf hplain
  refine ⟨?_, hrefused⟩
  tfae_have 1 → 2 := fun h ↦ by
    rw [Text.write, Text.vetSchema_of_withinDepth hplain h]
    exact ⟨_, rfl⟩
  tfae_have 1 → 3 := Document.exists_writeValue_of_withinDepth hplain
  tfae_have 1 → 4 := fun h ↦ by
    obtain ⟨s', hs', -⟩ :=
      Text.exists_read_render file hwf (Text.vetSchema_of_withinDepth hplain h)
    exact ⟨s', hs'⟩
  -- a schema that one stage takes is within the limit, since otherwise each of them refuses it
  tfae_have 2 → 1 := by
    rintro ⟨text, htext⟩
    by_contra h
    obtain ⟨_, _, _, hat⟩ := hrefused h
    cases htext.symm.trans hat.named
  tfae_have 3 → 1 := by
    rintro ⟨j, hj⟩
    by_contra h
    obtain ⟨_, _, _, hat⟩ := hrefused h
    obtain ⟨e, he, -⟩ := hat.located
    cases hj.symm.trans he
  tfae_have 4 → 1 := by
    rintro ⟨s', hs'⟩
    by_contra h
    obtain ⟨_, _, _, hat⟩ := hrefused h
    obtain ⟨e, he, -⟩ := hat.unread
    cases hs'.symm.trans he
  tfae_finish

private def nested : Nat → TypeExpr TypeRef
  | 0 => .leaf (.primitive .long)
  | n + 1 => .set (nested n)

private def chart (n : Nat) : Declaration EntityType :=
  ⟨.standard [] (some ⟨.cons "log" (nested n) true ∅ .nil, ∅⟩) none, ∅, none⟩

private def clinic (n : Nat) : Schema :=
  ⟨.ofList [(some (.bare ⟨"Clinic", by decide⟩),
    { Namespace.empty with entityTypes := .ofList [(⟨"Chart", by decide⟩, chart n)] })]⟩

private theorem wellFormed_nested (n : Nat) : (nested n).WellFormed TypeRef.IsWritable := by
  induction n with
  | zero => trivial
  | succ n ih => exact ih

private theorem isPlain_nested (n : Nat) : (nested n).IsPlain := by
  induction n with
  | zero => trivial
  | succ n ih => exact ih

private theorem wellFormed_clinic (n : Nat) : (clinic n).WellFormed TypeRef.IsWritable := by
  intro name ns hns
  obtain ⟨rfl, rfl⟩ := Prod.mk.inj (List.mem_singleton.mp hns)
  refine ⟨fun _ _ h ↦ absurd h List.not_mem_nil, fun id d hd ↦ ?_,
    fun _ _ h ↦ absurd h List.not_mem_nil⟩
  obtain ⟨rfl, rfl⟩ := Prod.mk.inj (List.mem_singleton.mp hd)
  refine ⟨?_, nofun⟩
  rintro _ ⟨⟩
  exact ⟨List.pairwise_singleton .., wellFormed_nested n, trivial⟩

private theorem isPlain_clinic (n : Nat) : (clinic n).IsPlain := by
  constructor
  · intro e he m hm t ht
    obtain rfl := List.mem_singleton.mp he
    obtain rfl := List.mem_singleton.mp hm
    obtain rfl := List.mem_singleton.mp ht
    exact ⟨rfl, isPlain_nested n, trivial⟩
  · intro e he hname
    obtain rfl := List.mem_singleton.mp he
    cases hname

/-- A shape with an attribute of 31 sets, one in the other, is taken by all stages, and one with 32
by none: each of them refuses the entity type. -/
theorem nesting_limit_clinic :
    let file := "clinic.cedarschema"
    (∃ text, Text.write (clinic 31) = .ok text) ∧
    (∃ j, Document.writeValue (clinic 31) = .ok j) ∧
    (∃ s', Text.read ⟨file, Text.render (clinic 31)⟩ = .ok s') ∧
    Text.write (clinic 32) = .error (.tooDeep "Clinic::Chart") ∧
    (∃ e, Document.writeValue (clinic 32) = .error e ∧
      e.IsOverdeepIn ⟨["Clinic", "entityTypes", "Chart"]⟩) ∧
    ∃ e, Text.read ⟨file, Text.render (clinic 32)⟩ = .error e ∧ e.cause = .tooDeep := by
  intro file
  have hlimit (n : Nat) := nesting_limit file (wellFormed_clinic n) (isPlain_clinic n)
  have hwithin : ∀ p ∈ (clinic 31).types, p.2.nestingDepth ≤ TypeExpr.maxDepth := by
    decide +kernel
  have hbeyond : ¬ ∀ p ∈ (clinic 32).types, p.2.nestingDepth ≤ TypeExpr.maxDepth := by
    decide +kernel
  obtain ⟨hstages, -⟩ := hlimit 31
  obtain ⟨name, ns, m, hat⟩ := (hlimit 32).2 hbeyond
  obtain ⟨rfl, rfl⟩ := Prod.mk.inj (List.mem_singleton.mp hat.first.mem)
  obtain rfl := List.mem_singleton.mp hat.first.inside.mem
  exact ⟨(hstages.out 0 1).mp hwithin, (hstages.out 0 2).mp hwithin, (hstages.out 0 3).mp hwithin,
    hat.named, hat.located, hat.unread⟩

end Schema

end PolicySchema
