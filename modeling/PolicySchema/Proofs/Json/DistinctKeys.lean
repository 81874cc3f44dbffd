import PolicySchema.Proofs.Json.RoundTrip
import PolicySchema.Proofs.Table

/-!
# Values without repeated keys

In a value in which no object repeats a key, the last member of a key is its only one. Counting only
the last member of each key then puts the members of each object in order and changes nothing else.
-/

namespace PolicySchema.Json

mutual

/-- No object anywhere in the value repeats a key. -/
def DistinctKeys : Json → Prop
  | null | bool _ | number _ | string _ => True
  | array items => DistinctKeysItems items
  | object members => (members.map Prod.fst).Nodup ∧ DistinctKeysMembers members

/-- No object anywhere in the items repeats a key. -/
def DistinctKeysItems : List Json → Prop
  | [] => True
  | item :: rest => DistinctKeys item ∧ DistinctKeysItems rest

/-- No object anywhere in the members' values repeats a key. -/
def DistinctKeysMembers : List (String × Json) → Prop
  | [] => True
  | (_, value) :: rest => DistinctKeys value ∧ DistinctKeysMembers rest

end

/-- No object in items repeats a key if none does in each of them. -/
theorem distinctKeysItems_iff {items : List Json} :
    DistinctKeysItems items ↔ ∀ item ∈ items, item.DistinctKeys := by
  induction items with
  | nil => simp [DistinctKeysItems]
  | cons item items ih => simp [DistinctKeysItems, ih]

/-- No object in members repeats a key if none does in the value of each of them. -/
theorem distinctKeysMembers_iff {members : List (String × Json)} :
    DistinctKeysMembers members ↔ ∀ m ∈ members, m.2.DistinctKeys := by
  induction members with
  | nil => simp [DistinctKeysMembers]
  | cons m members ih => simp [DistinctKeysMembers, ih]

/-! ### The last member of each key -/

/-- Repeated keys are removed from each item. -/
theorem lastOfEachItems_eq (items : List Json) :
    lastOfEachItems items = items.map lastOfEach := by
  induction items with
  | nil => rfl
  | cons item items ih => rw [lastOfEachItems, ih, List.map_cons]

/-- Repeated keys are removed from the value of each member. -/
theorem lastOfEachMembers_eq (members : List (String × Json)) :
    lastOfEachMembers members = members.map fun m ↦ (m.1, m.2.lastOfEach) := by
  induction members with
  | nil => rfl
  | cons m members ih => rw [lastOfEachMembers, ih, List.map_cons]

/-- Members without a repeated key are all kept, in key order. -/
theorem exists_perm_of_lastOfEach {members : List (String × Json)}
    (h : (members.map Prod.fst).Nodup) :
    ∃ sorted, lastOfEach (object members) = object sorted ∧
      sorted.Perm (members.map fun m ↦ (m.1, m.2.lastOfEach)) := by
  refine ⟨_, rfl, ?_⟩
  rw [lastOfEachMembers_eq]
  refine Table.perm_entries_ofList ?_
  rw [List.map_map]
  exact h

mutual

/-- A value without repeated keys is as deep as before. -/
theorem depth_lastOfEach : ∀ {j : Json}, j.DistinctKeys → j.lastOfEach.depth = j.depth
  | null, _ | bool _, _ | number _, _ | string _, _ => rfl
  | array items, h => by rw [lastOfEach, depth, depth, depthItems_lastOfEach h]
  | object members, ⟨hkeys, h⟩ => by
    obtain ⟨sorted, hsorted, hperm⟩ := exists_perm_of_lastOfEach hkeys
    have hmembers := depthMembers_lastOfEach h
    rw [lastOfEachMembers_eq] at hmembers
    have hle (n : Nat) : depthMembers sorted ≤ n ↔ depthMembers members ≤ n := by
      rw [← hmembers, depthMembers_le_iff, depthMembers_le_iff]
      simp only [hperm.mem_iff]
    rw [hsorted, depth, depth,
      Nat.le_antisymm ((hle _).mpr (Nat.le_refl _)) ((hle _).mp (Nat.le_refl _))]

private theorem depthItems_lastOfEach :
    ∀ {items : List Json}, DistinctKeysItems items →
      depthItems (lastOfEachItems items) = depthItems items
  | [], _ => rfl
  | _ :: _, ⟨hitem, hrest⟩ => by
    rw [lastOfEachItems, depthItems, depthItems, depth_lastOfEach hitem,
      depthItems_lastOfEach hrest]

private theorem depthMembers_lastOfEach :
    ∀ {members : List (String × Json)}, DistinctKeysMembers members →
      depthMembers (lastOfEachMembers members) = depthMembers members
  | [], _ => rfl
  | (_, _) :: _, ⟨hvalue, hrest⟩ => by
    rw [lastOfEachMembers, depthMembers, depthMembers, depth_lastOfEach hvalue,
      depthMembers_lastOfEach hrest]

end

/-! ### Values that a document can hold -/

/-- The value has no numbers in it, and no object in it repeats a key. -/
structure IsPlain (j : Json) : Prop where
  distinctKeys : j.DistinctKeys
  noNumbers : j.HasNoNumbers

/-- A string is plain. -/
theorem isPlain_string (s : String) : (string s).IsPlain := ⟨trivial, rfl⟩

/-- An array of plain values is plain. -/
theorem isPlain_array {items : List Json} (h : ∀ item ∈ items, item.IsPlain) :
    (array items).IsPlain :=
  ⟨distinctKeysItems_iff.mpr fun item hi ↦ (h item hi).distinctKeys,
    allNumbersItems_iff.mpr fun item hi ↦ (h item hi).noNumbers⟩

/-- An object of plain values under different keys is plain. -/
theorem isPlain_object {members : List (String × Json)} (hkeys : (members.map Prod.fst).Nodup)
    (h : ∀ m ∈ members, m.2.IsPlain) : (object members).IsPlain :=
  ⟨⟨hkeys, distinctKeysMembers_iff.mpr fun m hm ↦ (h m hm).distinctKeys⟩,
    allNumbersMembers_iff.mpr fun m hm ↦ (h m hm).noNumbers⟩

mutual

/-- A value without numbers has only numbers that satisfy a condition. -/
theorem allNumbers_of_hasNoNumbers {p : JsonNumber → Bool} :
    ∀ {j : Json}, j.HasNoNumbers → j.allNumbers p = true
  | null, _ | bool _, _ | string _, _ => rfl
  | array _, h => allNumbersItems_of_hasNoNumbers h
  | object _, h => allNumbersMembers_of_hasNoNumbers h

private theorem allNumbersItems_of_hasNoNumbers {p : JsonNumber → Bool} :
    ∀ {items : List Json}, allNumbersItems (fun _ ↦ false) items = true →
      allNumbersItems p items = true
  | [], _ => rfl
  | _ :: _, h => by
    obtain ⟨hitem, hrest⟩ := Bool.and_eq_true_iff.mp h
    exact Bool.and_eq_true_iff.mpr
      ⟨allNumbers_of_hasNoNumbers hitem, allNumbersItems_of_hasNoNumbers hrest⟩

private theorem allNumbersMembers_of_hasNoNumbers {p : JsonNumber → Bool} :
    ∀ {members : List (String × Json)}, allNumbersMembers (fun _ ↦ false) members = true →
      allNumbersMembers p members = true
  | [], _ => rfl
  | (_, _) :: _, h => by
    obtain ⟨hvalue, hrest⟩ := Bool.and_eq_true_iff.mp h
    exact Bool.and_eq_true_iff.mpr
      ⟨allNumbers_of_hasNoNumbers hvalue, allNumbersMembers_of_hasNoNumbers hrest⟩

end

end PolicySchema.Json
