import PolicySchema.Table

/-!
# Tables as finite maps

A table is determined by what it finds under each key (`ext_find?`), and it finds a value under a
key exactly when it has the entry (`find?_eq_some_iff`). A list with different keys and the table
made of it have the same entries.
-/

namespace PolicySchema

universe u v w

/-! ### Lists with different keys -/

section

variable {κ : Type u} {α : Type v} {f : α → κ} {a : α} {done more : List α}

/-- Keys stay different when a value with a new key is added to the end. -/
theorem nodup_map_concat (h : (done.map f).Nodup) (ha : f a ∉ done.map f) :
    ((done ++ [a]).map f).Nodup := by
  rw [List.map_append, List.nodup_append]
  refine ⟨h, List.pairwise_singleton _ _, ?_⟩
  intro i hi j hj
  rw [List.mem_singleton.mp hj]
  rintro rfl
  exact ha hi

/-- Where keys are different, so are those before a value, and the key of the value is new. -/
theorem nodup_map_before (h : ((done ++ a :: more).map f).Nodup) :
    (done.map f).Nodup ∧ f a ∉ done.map f := by
  rw [List.map_append, List.nodup_append] at h
  exact ⟨h.1, fun hm ↦ h.2.2 _ hm (f a) List.mem_cons_self rfl⟩

end

namespace Table

variable {κ : Type u} {α : Type v} {β : Type w}

variable [Ord κ]

/-- A table is empty exactly if it has no entries. -/
theorem isEmpty_iff {t : Table κ α} : t.isEmpty = true ↔ t = ∅ := by
  rw [isEmpty, List.isEmpty_iff, ext_iff]
  rfl

section Lawful

variable [Std.LawfulEqOrd κ]

private theorem keys_nodup_of_ascending {l : List (κ × α)} (h : Ascending l) :
    (l.map Prod.fst).Nodup := by
  refine List.pairwise_map.mpr (h.imp ?_)
  intro a b hab he
  rw [he, Std.ReflOrd.compare_self] at hab
  cases hab

/-- No two entries of a table have the same key. -/
theorem keys_nodup (t : Table κ α) : t.keys.Nodup := keys_nodup_of_ascending t.ascending

/-- The value that entries with different keys give to a key. -/
theorem lookup?_eq_some_iff {l : List (κ × α)} (h : (l.map Prod.fst).Nodup) {k : κ} {v : α} :
    lookup? k l = some v ↔ (k, v) ∈ l := by
  induction l with
  | nil => simp [lookup?]
  | cons head rest ih =>
    obtain ⟨j, w⟩ := head
    obtain ⟨hj, hrest⟩ := List.nodup_cons.mp h
    simp only [lookup?]
    by_cases he : compare k j = .eq
    · obtain rfl := Std.LawfulEqOrd.eq_of_compare he
      have hn : (k, v) ∉ rest := fun hm ↦ hj (List.mem_map.mpr ⟨_, hm, rfl⟩)
      simp [hn, eq_comm]
    · have hne : k ≠ j := fun hkj ↦ he (hkj ▸ Std.ReflOrd.compare_self)
      simp [he, hne, ih hrest]

/-- A table finds exactly its entries. -/
theorem find?_eq_some_iff {t : Table κ α} {k : κ} {v : α} :
    t.find? k = some v ↔ (k, v) ∈ t.entries :=
  lookup?_eq_some_iff t.keys_nodup

/-- The keys of a table are those that it finds a value for. -/
theorem mem_keys_iff {t : Table κ α} {k : κ} : k ∈ t.keys ↔ (t.find? k).isSome = true := by
  rw [Option.isSome_iff_exists]
  simp only [find?_eq_some_iff, keys, List.mem_map, Prod.exists, exists_and_right,
    exists_eq_right]

/-- The table with the entries that pass a test. -/
def filter (t : Table κ α) (p : κ → α → Bool) : Table κ α :=
  ⟨t.entries.filter fun e ↦ p e.1 e.2, t.ascending.filter _⟩

variable [Std.TransOrd κ]

private theorem eq_of_ascending {l m : List (κ × α)} (hl : Ascending l) (hm : Ascending m)
    (h : ∀ e, e ∈ l ↔ e ∈ m) : l = m := by
  have nodup {n : List (κ × α)} (hn : Ascending n) : n.Nodup := by
    refine hn.imp ?_
    rintro a _ hab rfl
    rw [Std.ReflOrd.compare_self] at hab
    cases hab
  refine List.Perm.eq_of_pairwise ?_ hl hm
    ((List.perm_ext_iff_of_nodup (nodup hl) (nodup hm)).mpr h)
  intro a b _ _ hab hba
  rw [Std.OrientedOrd.eq_swap (a := a.1), hba] at hab
  cases hab

/-- Tables that find the same are equal. -/
theorem ext_find? {s t : Table κ α} (h : ∀ k, s.find? k = t.find? k) : s = t := by
  apply ext
  apply eq_of_ascending s.ascending t.ascending
  rintro ⟨k, v⟩
  rw [← find?_eq_some_iff, h, find?_eq_some_iff]

variable [DecidableEq κ]

/-- Of inserted entries with different keys one is found, and otherwise what was there before. -/
theorem find?_foldl_insert (l : List (κ × α)) (h : (l.map Prod.fst).Nodup)
    (t : Table κ α) (k : κ) :
    (l.foldl (fun t e ↦ t.insert e.1 e.2) t).find? k = (lookup? k l).or (t.find? k) := by
  induction l generalizing t with
  | nil => rfl
  | cons head rest ih =>
    obtain ⟨j, w⟩ := head
    obtain ⟨hj, hrest⟩ := List.nodup_cons.mp h
    rw [List.foldl_cons, ih hrest, find?_insert]
    by_cases hk : k = j
    · subst hk
      have hn : lookup? k rest = none := by
        cases hl : lookup? k rest with
        | none => rfl
        | some v =>
          exact absurd (List.mem_map_of_mem ((lookup?_eq_some_iff hrest).mp hl)) hj
      simp [lookup?, hn]
    · simp [lookup?, Std.LawfulEqCmp.compare_eq_iff_eq, hk]

/-- The table of a list with different keys finds the first value under each. -/
theorem find?_ofList {l : List (κ × α)} (h : (l.map Prod.fst).Nodup) (k : κ) :
    (ofList l).find? k = lookup? k l := by
  rw [ofList, find?_foldl_insert l h, find?_empty, Option.or_none]

/-- The table of a list with different keys has the entries of the list. -/
theorem find?_ofList_eq_some_iff {l : List (κ × α)} (h : (l.map Prod.fst).Nodup) {k : κ} {v : α} :
    (ofList l).find? k = some v ↔ (k, v) ∈ l := by
  rw [find?_ofList h, lookup?_eq_some_iff h]

/-- The table of its entries is the table. -/
theorem ofList_entries (t : Table κ α) : ofList t.entries = t :=
  ext_find? fun k ↦ find?_ofList t.keys_nodup k

/-- Entries in ascending order are those of their table. -/
theorem entries_ofList {l : List (κ × α)} (h : Ascending l) : (ofList l).entries = l :=
  congrArg entries (ofList_entries ⟨l, h⟩)

/-- A list with different keys has a key exactly when its table does. -/
theorem contains_ofList {l : List (κ × α)} (h : (l.map Prod.fst).Nodup) {k : κ} :
    (ofList l).contains k = true ↔ k ∈ l.map Prod.fst := by
  rw [contains, Option.isSome_iff_exists]
  simp only [find?_ofList_eq_some_iff h, List.mem_map, Prod.exists, exists_and_right,
    exists_eq_right]

/-- The entries of the table of a list with different keys are those of the list in another
order. -/
theorem perm_entries_ofList {l : List (κ × α)} (h : (l.map Prod.fst).Nodup) :
    (ofList l).entries.Perm l := by
  have nodup {m : List (κ × α)} (hm : (m.map Prod.fst).Nodup) : m.Nodup :=
    (List.pairwise_map.mp hm).imp fun hne heq ↦ hne (congrArg Prod.fst heq)
  refine (List.perm_ext_iff_of_nodup (nodup (ofList l).keys_nodup) (nodup h)).mpr ?_
  rintro ⟨k, v⟩
  rw [← find?_eq_some_iff, find?_ofList_eq_some_iff h]

/-- The table of the entries of a table in another order is the table. -/
theorem ofList_of_perm {l : List (κ × α)} {t : Table κ α} (h : l.Perm t.entries) :
    ofList l = t := by
  have hl : (l.map Prod.fst).Nodup := (h.map Prod.fst).nodup_iff.mpr t.keys_nodup
  refine ext_find? fun k ↦ Option.ext fun v ↦ ?_
  rw [find?_ofList_eq_some_iff hl, find?_eq_some_iff, h.mem_iff]

/-- Inserting a new key adds one entry. -/
theorem find?_insert_eq_some_iff {t : Table κ α} {j k : κ} {v w : α} (h : t.find? k = none) :
    (t.insert k v).find? j = some w ↔ t.find? j = some w ∨ j = k ∧ w = v := by
  rw [find?_insert]
  by_cases hj : j = k
  · subst hj
    simp [h, eq_comm]
  · simp [hj]

end Lawful

/-- A table made of a list has entries of the list only. -/
theorem mem_of_mem_ofList [Std.TransOrd κ] {l : List (κ × α)} {e : κ × α}
    (h : e ∈ (ofList l).entries) : e ∈ l := by
  have hfold (l : List (κ × α)) (t : Table κ α)
      (h : e ∈ (l.foldl (fun t e ↦ t.insert e.1 e.2) t).entries) : e ∈ t.entries ∨ e ∈ l := by
    induction l generalizing t with
    | nil => exact .inl h
    | cons head rest ih =>
      rcases ih _ h with hinsert | hrest
      · rcases mem_insertEntry hinsert with rfl | ht
        · exact .inr List.mem_cons_self
        · exact .inl ht
      · exact .inr (List.mem_cons_of_mem _ hrest)
  exact (hfold l empty h).resolve_left List.not_mem_nil

/-- Adding an entry to the end of a list adds it to its table. -/
theorem ofList_concat [Std.TransOrd κ] (l : List (κ × α)) (k : κ) (v : α) :
    ofList (l ++ [(k, v)]) = (ofList l).insert k v := by
  simp [ofList, List.foldl_append]

/-- Replacing values keeps what is found apart from the values. -/
theorem find?_mapEntries [Std.TransOrd κ] [Std.LawfulEqOrd κ] (t : Table κ α) (f : κ → α → β)
    (k : κ) : (t.mapEntries f).find? k = (t.find? k).map (f k) := by
  have lookup_map (l : List (κ × α)) :
      lookup? k (l.map fun e ↦ (e.1, f e.1 e.2)) = (lookup? k l).map (f k) := by
    induction l with
    | nil => rfl
    | cons head rest ih =>
      obtain ⟨j, w⟩ := head
      simp only [List.map_cons, lookup?]
      split
      · next he =>
        obtain rfl := Std.LawfulEqOrd.eq_of_compare he
        rfl
      · exact ih
  exact lookup_map t.entries

/-- Replacing values keeps what is found apart from the values. -/
theorem find?_map [Std.TransOrd κ] [Std.LawfulEqOrd κ] (t : Table κ α) (f : α → β) (k : κ) :
    (t.map f).find? k = (t.find? k).map f :=
  find?_mapEntries t (fun _ v ↦ f v) k

/-- A table is not changed by a test that all its entries pass. -/
theorem filter_eq_self {t : Table κ α} {p : κ → α → Bool}
    (h : ∀ k v, (k, v) ∈ t.entries → p k v = true) : t.filter p = t :=
  ext (List.filter_eq_self.mpr fun e he ↦ h e.1 e.2 he)

/-- A table is not changed by what changes none of its values. -/
theorem map_eq_self {t : Table κ α} {f : α → α} (h : ∀ k v, (k, v) ∈ t.entries → f v = v) :
    t.map f = t := by
  apply Table.ext
  have hmap : t.entries.map (fun e ↦ (e.1, f e.2)) = t.entries.map id :=
    List.map_congr_left fun e he ↦ Prod.ext rfl (h e.1 e.2 he)
  exact hmap.trans (List.map_id _)

/-- Replacing values one after the other replaces them at once. -/
theorem map_map {γ : Type} (t : Table κ α) (f : α → β) (g : β → γ) :
    (t.map f).map g = t.map (g ∘ f) := by
  apply ext
  simp [map, mapEntries, Function.comp_def]

end Table

/-- Adding a member adds it alone. -/
theorem KeySet.contains_add {κ : Type u} [Ord κ] [Std.TransOrd κ] [Std.LawfulEqOrd κ]
    {s : KeySet κ} {j k : κ} :
    (s.add k).contains j = true ↔ s.contains j = true ∨ j = k := by
  rw [KeySet.contains_add_iff, Std.LawfulEqCmp.compare_eq_iff_eq, or_comm]

end PolicySchema
