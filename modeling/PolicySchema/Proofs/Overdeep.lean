import PolicySchema.Proofs.Members

/-!
# Where a schema nests too deep

The namespaces of a schema and the members of each of them are taken in order by every stage that
writes, checks or reads. So a schema that nests too deep breaks the limit at one member first
(`Schema.exists_breaksAt`).
-/

namespace PolicySchema

/-- No type in the declaration nests too deep. -/
def Namespace.Member.WithinDepth (m : Member) : Prop := ∀ t ∈ m.types, t.depth ≤ TypeExpr.maxDepth

/-- No type in the namespace nests too deep. -/
def Namespace.WithinDepth (ns : Namespace) : Prop := ∀ m ∈ ns.members, m.WithinDepth

/-- No type in the schema nests too deep. -/
def Schema.WithinDepth (s : Schema) : Prop := ∀ e ∈ s.namespaces.entries, e.2.WithinDepth

/-- The member is the first in its namespace with a type that nests too deep. -/
structure Namespace.BreaksAt (ns : Namespace) (m : Member) : Prop where
  members : ∃ before after, ns.members = before ++ m :: after ∧ ∀ k ∈ before, k.WithinDepth
  overdeep : ¬ m.WithinDepth

/-- The member is the first in the schema with a type that nests too deep: it is the first in its
namespace, and the namespaces before have none. -/
structure Schema.BreaksAt (s : Schema) (name : Option Name) (ns : Namespace)
    (m : Namespace.Member) : Prop where
  namespaces : ∃ before after, s.namespaces.entries = before ++ (name, ns) :: after ∧
    ∀ e ∈ before, e.2.WithinDepth
  inside : ns.BreaksAt m

/-- The declaration at which a namespace breaks the limit is one of its declarations. -/
theorem Namespace.BreaksAt.mem {ns : Namespace} {m : Member} (h : ns.BreaksAt m) :
    m ∈ ns.members := by
  obtain ⟨before, after, hmembers, -⟩ := h.members
  rw [hmembers]
  exact List.mem_append_right before List.mem_cons_self

/-- The namespace in which a schema breaks the limit is one of its namespaces. -/
theorem Schema.BreaksAt.mem {s : Schema} {name : Option Name} {ns : Namespace}
    {m : Namespace.Member} (h : s.BreaksAt name ns m) : (name, ns) ∈ s.namespaces.entries := by
  obtain ⟨before, after, hentries, -⟩ := h.namespaces
  rw [hentries]
  exact List.mem_append_right before List.mem_cons_self

/-- Where not all items have a property, there is a first one that lacks it. -/
theorem exists_first_of_not_forall {α : Type} {P : α → Prop} {l : List α} (h : ¬ ∀ a ∈ l, P a) :
    ∃ before a after, l = before ++ a :: after ∧ (∀ b ∈ before, P b) ∧ ¬ P a := by
  induction l with
  | nil => exact absurd nofun h
  | cons a l ih =>
    by_cases ha : P a
    · have hrest : ¬ ∀ b ∈ l, P b := fun hl ↦ h (List.forall_mem_cons.mpr ⟨ha, hl⟩)
      obtain ⟨before, b, after, rfl, hbefore, hb⟩ := ih hrest
      exact ⟨a :: before, b, after, rfl, List.forall_mem_cons.mpr ⟨ha, hbefore⟩, hb⟩
    · exact ⟨[], a, l, rfl, nofun, ha⟩

/-- A schema in which some type nests too deep breaks the limit at some member first. -/
theorem Schema.exists_breaksAt {s : Schema} (h : ¬ s.WithinDepth) :
    ∃ name ns m, s.BreaksAt name ns m := by
  obtain ⟨before, ⟨name, ns⟩, after, hentries, hbefore, hns⟩ := exists_first_of_not_forall h
  obtain ⟨earlier, m, later, hmembers, hearlier, hm⟩ := exists_first_of_not_forall hns
  exact ⟨name, ns, m, ⟨before, after, hentries, hbefore⟩, ⟨earlier, later, hmembers, hearlier⟩, hm⟩

end PolicySchema
