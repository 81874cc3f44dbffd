import Mathlib.Data.List.Basic
import PolicySchema.Proofs.Table
import PolicySchema.Schema

/-!
# Merged schemas

Schemas are merged into one, namespace by namespace. Of several values of one key the first counts,
so the merged schema holds under each key what the first of the schemas holds that holds anything
there (`Schema.lookup?_mergeAll`).
-/

namespace PolicySchema

/-! ### Tables -/

namespace Table

variable {κ α : Type} [Ord κ] [Std.TransOrd κ]

/-- The entries of both tables, with the two values of a shared key combined. -/
def mergeWith (combine : α → α → α) (s t : Table κ α) : Table κ α :=
  t.entries.foldl (fun s e ↦ s.insert e.1 (((s.find? e.1).map (combine · e.2)).getD e.2)) s

/-- The entries of both tables, of which the first table's count where they share a key. -/
def merge (s t : Table κ α) : Table κ α := s.mergeWith (fun first _ ↦ first) t

variable [Std.LawfulEqOrd κ] [DecidableEq κ]

/-- What is found in both tables is combined. -/
theorem find?_mergeWith (combine : α → α → α) (s t : Table κ α) (k : κ) :
    (s.mergeWith combine t).find? k = Option.merge combine (s.find? k) (t.find? k) := by
  have hfold (l : List (κ × α)) (hl : (l.map Prod.fst).Nodup) (s : Table κ α) :
      (l.foldl (fun s e ↦ s.insert e.1 (((s.find? e.1).map (combine · e.2)).getD e.2)) s).find? k =
        Option.merge combine (s.find? k) (lookup? k l) := by
    induction l generalizing s with
    | nil => simp [lookup?]
    | cons e rest ih =>
      obtain ⟨hkey, hrest⟩ := List.nodup_cons.mp hl
      rw [List.foldl_cons, ih hrest, find?_insert, lookup?]
      by_cases hk : k = e.1
      · subst hk
        have hnone : lookup? e.1 rest = none := by
          refine Option.eq_none_iff_forall_ne_some.mpr fun v hv ↦ hkey ?_
          exact List.mem_map.mpr ⟨_, (lookup?_eq_some_iff hrest).mp hv, rfl⟩
        rw [hnone]
        cases hs : s.find? e.1 <;> simp
      · simp [hk, Std.LawfulEqCmp.compare_eq_iff_eq]
  exact hfold t.entries t.keys_nodup s

/-- What the first table has is found, and otherwise what the second one has. -/
theorem find?_merge (s t : Table κ α) (k : κ) :
    (s.merge t).find? k = (s.find? k).or (t.find? k) := by
  rw [merge, find?_mergeWith]
  cases s.find? k <;> cases t.find? k <;> rfl

end Table

/-! ### Schemas -/

/-- The namespace with all annotations and declarations of both. -/
def Namespace.merge (d e : Namespace) : Namespace where
  annotations := d.annotations.merge e.annotations
  commonTypes := d.commonTypes.merge e.commonTypes
  entityTypes := d.entityTypes.merge e.entityTypes
  actions := d.actions.merge e.actions

namespace Schema

/-- The schema with all namespaces of both, and with shared namespaces merged. -/
def merge (s t : Schema) : Schema := ⟨s.namespaces.mergeWith Namespace.merge t.namespaces⟩

/-- The schemas merged into one. -/
def mergeAll (schemas : List Schema) : Schema := schemas.foldr merge empty

variable {κ α : Type} [Ord κ]

/-- What the schema holds in one of the tables of a namespace. -/
def lookup? (field : Namespace → Table κ α) (s : Schema) (ns : Option Name) (k : κ) : Option α :=
  (s.namespaces.find? ns).bind fun d ↦ (field d).find? k

/-- What the first schema holds counts, and otherwise what the second one does. -/
theorem lookup?_merge (field : Namespace → Table κ α)
    (hfield : ∀ d e k, (field (d.merge e)).find? k = ((field d).find? k).or ((field e).find? k))
    (s t : Schema) (ns : Option Name) (k : κ) :
    (s.merge t).lookup? field ns k = (s.lookup? field ns k).or (t.lookup? field ns k) := by
  rw [lookup?, merge, Table.find?_mergeWith, lookup?, lookup?]
  cases s.namespaces.find? ns <;> cases t.namespaces.find? ns <;> simp [Option.merge, hfield]

/-- What the first of the schemas holds that holds anything under the key. -/
theorem lookup?_mergeAll {field : Namespace → Table κ α}
    (hfield : ∀ d e k, (field (d.merge e)).find? k = ((field d).find? k).or ((field e).find? k))
    (schemas : List Schema) (ns : Option Name) (k : κ) :
    (mergeAll schemas).lookup? field ns k = schemas.findSome? (·.lookup? field ns k) := by
  induction schemas with
  | nil => rfl
  | cons s rest ih =>
    rw [List.findSome?_cons, ← ih]
    refine (lookup?_merge field hfield s (mergeAll rest) ns k).trans ?_
    cases s.lookup? field ns k <;> rfl

/-- The merged schema has the namespaces of all schemas. -/
theorem contains_namespaces_mergeAll (schemas : List Schema) (ns : Option Name) :
    (mergeAll schemas).namespaces.contains ns = true ↔
      ∃ s ∈ schemas, s.namespaces.contains ns = true := by
  induction schemas with
  | nil => exact iff_of_false (by rw [Bool.not_eq_true]; rfl) (by simp)
  | cons s rest ih =>
    rw [List.exists_mem_cons_iff, ← ih]
    change ((s.merge (mergeAll rest)).namespaces.find? ns).isSome = true ↔ _
    rw [merge, Table.find?_mergeWith]
    cases hs : s.namespaces.find? ns <;> cases ht : (mergeAll rest).namespaces.find? ns <;>
      simp [Table.contains, hs, ht]

end Schema

end PolicySchema
