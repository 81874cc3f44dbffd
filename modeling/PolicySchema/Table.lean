/-!
# Tables in key order

A table maps keys to values and keeps its entries in strictly ascending key order, so two tables
with the same entries are equal. `find?_insert` gives the view of insertion.
-/

namespace PolicySchema

universe u v w

/-- Entries of which each key is below all later ones. -/
def Ascending {κ : Type u} {α : Type v} [Ord κ] (entries : List (κ × α)) : Prop :=
  entries.Pairwise fun a b ↦ compare a.1 b.1 = .lt

/-- A finite map with its entries in ascending key order. -/
structure Table (κ : Type u) (α : Type v) [Ord κ] where
  /-- The entries, in ascending key order. -/
  entries : List (κ × α)
  ascending : Ascending entries

namespace Table

variable {κ : Type u} {α : Type v} {β : Type w} [Ord κ]

/-- Tables are equal when their entries are. -/
theorem ext {s t : Table κ α} (h : s.entries = t.entries) : s = t := by
  cases s; cases t; cases h; rfl

/-- Equality of tables is equality of their entries. -/
theorem ext_iff {s t : Table κ α} : s = t ↔ s.entries = t.entries :=
  ⟨congrArg entries, ext⟩

/-- Equality of tables can be tested on their entries. -/
instance [DecidableEq κ] [DecidableEq α] : DecidableEq (Table κ α) := fun _ _ ↦
  decidable_of_iff _ ext_iff.symm

/-- The table without entries. -/
def empty : Table κ α := ⟨[], .nil⟩

/-- The empty collection is the table without entries. -/
instance : EmptyCollection (Table κ α) := ⟨empty⟩

/-- The empty table stands for any. -/
instance : Inhabited (Table κ α) := ⟨empty⟩

/-- The keys, in ascending order. -/
def keys (t : Table κ α) : List κ := t.entries.map Prod.fst

/-- The values, in the order of their keys. -/
def values (t : Table κ α) : List α := t.entries.map Prod.snd

/-- The table has no entries. -/
def isEmpty (t : Table κ α) : Bool := t.entries.isEmpty

/-- The number of entries. -/
def size (t : Table κ α) : Nat := t.entries.length

/-- The value that a list of entries gives to a key. -/
def lookup? (k : κ) : List (κ × α) → Option α
  | [] => none
  | (j, v) :: rest => if compare k j = .eq then some v else lookup? k rest

/-- The value of a key. -/
def find? (t : Table κ α) (k : κ) : Option α := lookup? k t.entries

/-- The key has a value. -/
def contains (t : Table κ α) (k : κ) : Bool := (t.find? k).isSome

/-- Puts an entry at its place in a list of entries, in place of one with the same key. -/
def insertEntry (k : κ) (v : α) : List (κ × α) → List (κ × α)
  | [] => [(k, v)]
  | (j, w) :: rest =>
    match compare k j with
    | .lt => (k, v) :: (j, w) :: rest
    | .eq => (k, v) :: rest
    | .gt => (j, w) :: insertEntry k v rest

/-- An inserted list holds only the new entry and old ones. -/
theorem mem_insertEntry {k : κ} {v : α} {e : κ × α} {l : List (κ × α)}
    (h : e ∈ insertEntry k v l) : e = (k, v) ∨ e ∈ l := by
  induction l with
  | nil => simpa [insertEntry] using h
  | cons head rest ih =>
    obtain ⟨j, w⟩ := head
    simp only [insertEntry] at h
    split at h
    · simpa using h
    · rcases List.mem_cons.mp h with h | h
      · exact .inl h
      · exact .inr (List.mem_cons_of_mem _ h)
    · rcases List.mem_cons.mp h with h | h
      · exact .inr (h ▸ List.mem_cons_self)
      · exact (ih h).imp id (List.mem_cons_of_mem _)

/-- Insertion keeps the order. -/
theorem ascending_insertEntry [Std.TransOrd κ] (k : κ) (v : α) {l : List (κ × α)}
    (h : Ascending l) : Ascending (insertEntry k v l) := by
  induction l with
  | nil => exact List.pairwise_singleton _ _
  | cons head rest ih =>
    obtain ⟨j, w⟩ := head
    obtain ⟨hj, hrest⟩ := List.pairwise_cons.mp h
    simp only [insertEntry]
    split
    · next hlt =>
      refine List.pairwise_cons.mpr ⟨fun e he ↦ ?_, h⟩
      rcases List.mem_cons.mp he with rfl | he
      · exact hlt
      · exact Std.TransCmp.lt_trans hlt (hj e he)
    · next heq =>
      exact List.pairwise_cons.mpr
        ⟨fun e he ↦ (Std.TransCmp.congr_left heq).trans (hj e he), hrest⟩
    · next hgt =>
      refine List.pairwise_cons.mpr ⟨fun e he ↦ ?_, ih hrest⟩
      rcases mem_insertEntry he with rfl | he
      · exact Std.OrientedCmp.lt_of_gt hgt
      · exact hj e he

/-- The table with the given value for the given key, and all else as before. -/
def insert [Std.TransOrd κ] (t : Table κ α) (k : κ) (v : α) : Table κ α :=
  ⟨insertEntry k v t.entries, ascending_insertEntry k v t.ascending⟩

/-- The table of a list of entries; of several with one key the last one counts. -/
def ofList [Std.TransOrd κ] (entries : List (κ × α)) : Table κ α :=
  entries.foldl (fun t e ↦ t.insert e.1 e.2) empty

private theorem ascending_of_keys_sublist {l : List (κ × α)} {m : List (κ × β)}
    (h : Ascending l) (hs : (m.map Prod.fst).Sublist (l.map Prod.fst)) : Ascending m := by
  have hl : (l.map Prod.fst).Pairwise fun a b ↦ compare a b = .lt := List.pairwise_map.mpr h
  exact List.pairwise_map.mp (hl.sublist hs)

/-- The table with each value replaced by a function of its key and itself. -/
def mapEntries (t : Table κ α) (f : κ → α → β) : Table κ β :=
  ⟨t.entries.map fun e ↦ (e.1, f e.1 e.2),
    ascending_of_keys_sublist t.ascending (by simp [List.map_map, Function.comp_def])⟩

/-- The table with each value replaced by a function of it. -/
def map (t : Table κ α) (f : α → β) : Table κ β := t.mapEntries fun _ v ↦ f v

/-- Keys that compare as equal have the same value. -/
theorem lookup?_congr [Std.TransOrd κ] {j k : κ} (h : compare j k = .eq) (l : List (κ × α)) :
    lookup? j l = lookup? k l := by
  induction l with
  | nil => rfl
  | cons head rest ih => simp only [lookup?, Std.TransCmp.congr_left h, ih]

/-- The value of a key after an insertion. -/
theorem lookup?_insertEntry [Std.TransOrd κ] (j k : κ) (v : α) (l : List (κ × α)) :
    lookup? j (insertEntry k v l) = if compare j k = .eq then some v else lookup? j l := by
  induction l with
  | nil => rfl
  | cons head rest ih =>
    obtain ⟨i, w⟩ := head
    simp only [insertEntry]
    split
    · rfl
    · next heq =>
      by_cases h : compare j k = .eq
      · simp [lookup?, h]
      · simp [lookup?, h, ← Std.TransCmp.congr_right heq]
    · next hgt =>
      simp only [lookup?, ih]
      by_cases h : compare j k = .eq
      · have hne : compare j i ≠ .eq := by
          rw [Std.TransCmp.congr_left h, hgt]
          nofun
        simp [h, hne]
      · simp [h]

/-- Insertion changes the value of its own key only. -/
theorem find?_insert [Std.TransOrd κ] [Std.LawfulEqOrd κ] [DecidableEq κ]
    (t : Table κ α) (j k : κ) (v : α) :
    (t.insert k v).find? j = if j = k then some v else t.find? j := by
  simp only [find?, insert, lookup?_insertEntry, Std.LawfulEqCmp.compare_eq_iff_eq]

/-- The empty table gives no key a value. -/
theorem find?_empty (k : κ) : (empty : Table κ α).find? k = none := rfl

end Table

/-- A finite set of keys, in ascending order. -/
abbrev KeySet (κ : Type u) [Ord κ] := Table κ Unit

namespace KeySet

variable {κ : Type u} [Ord κ]

/-- The members, in ascending order. -/
def toList (s : KeySet κ) : List κ := s.keys

/-- The set with one more member. -/
def add [Std.TransOrd κ] (s : KeySet κ) (k : κ) : KeySet κ := Table.insert s k ()

/-- The set with all members of a list added. -/
def addAll [Std.TransOrd κ] (s : KeySet κ) (ks : List κ) : KeySet κ := ks.foldl add s

/-- The set of the members of a list. -/
def ofList [Std.TransOrd κ] (ks : List κ) : KeySet κ := addAll ∅ ks

/-- Adding a member adds what compares as equal to it. -/
theorem contains_add_iff [Std.TransOrd κ] {s : KeySet κ} {j k : κ} :
    (s.add k).contains j = true ↔ compare j k = .eq ∨ s.contains j = true := by
  rw [add, Table.contains, Table.find?, Table.insert, Table.lookup?_insertEntry]
  by_cases h : compare j k = .eq <;> simp [h, Table.contains, Table.find?]

end KeySet

end PolicySchema
