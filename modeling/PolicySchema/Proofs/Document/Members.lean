import Mathlib.Data.List.Perm.Basic
import PolicySchema.Document.OfSchema
import PolicySchema.Document.ToSchema
import PolicySchema.Proofs.Except
import PolicySchema.Proofs.Name
import PolicySchema.Proofs.Table

/-!
# Reading members, items and annotations

Members with different keys are read when each of them is, in an order that does not matter for the
table that they make.
-/

namespace PolicySchema

/-- No text is the first to be repeated exactly if all texts are different and new. -/
theorem firstRepeated?_eq_none_iff {seen texts : List String} :
    firstRepeated? seen texts = none ↔ texts.Nodup ∧ ∀ text ∈ texts, text ∉ seen := by
  induction texts generalizing seen with
  | nil => simp [firstRepeated?]
  | cons text rest ih =>
    rw [firstRepeated?]
    split
    · next h =>
      rw [List.contains_iff_mem] at h
      simp [h]
    · next h =>
      rw [List.contains_iff_mem] at h
      rw [ih, List.nodup_cons, List.forall_mem_cons]
      simp only [List.mem_cons, not_or, forall_and]
      constructor
      · rintro ⟨hrest, hne, hnew⟩
        exact ⟨⟨fun hmem ↦ hne _ hmem rfl, hrest⟩, h, hnew⟩
      · rintro ⟨⟨hmem, hrest⟩, -, hnew⟩
        exact ⟨hrest, fun other hother heq ↦ hmem (heq ▸ hother), hnew⟩

namespace Document

variable {α β : Type}

/-- Members with different keys are read if each of them is, in some order. -/
theorem membersAt_of_ok {γ : Type} (path : Pointer)
    (read : Pointer → String → α → Except Error β) {members : Members α} {es : List γ}
    {write : γ → String × α} {value : γ → β} (hmembers : members.Perm (es.map write))
    (hkeys : (es.map fun e ↦ (write e).1).Nodup)
    (h : ∀ e ∈ es, read (path.child (write e).1) (write e).1 (write e).2 = .ok (value e)) :
    ∃ bs, membersAt path members read = .ok bs ∧ bs.Perm (es.map value) := by
  have hnodup : (members.map Prod.fst).Nodup := by
    have hmap := hmembers.map Prod.fst
    rw [List.map_map] at hmap
    exact hmap.nodup_iff.mpr hkeys
  have hdistinct : distinctMembers path members = .ok (Table.ofList members).entries := by
    rw [distinctMembers, firstRepeated?_eq_none_iff.mpr ⟨hnodup, by simp⟩]
  have hperm := (Table.perm_entries_ofList hnodup).trans hmembers
  obtain ⟨sorted, hsorted, hes⟩ := (congrFun₂ (List.eq_map_comp_perm write) _ _).mpr hperm
  refine ⟨sorted.map value, ?_, hes.map value⟩
  rw [membersAt, hdistinct, hsorted]
  have hread := Except.mapM_of_ok fun e he ↦ h e (hes.mem_iff.mp he)
  rw [← hread]
  simp [bind, Except.bind, List.mapM_map, Function.comp_def]

/-- Members that are the entries of a table under the texts of their keys are read as the table if
each of them is read as its entry. -/
theorem membersAt_of_table {κ γ : Type} [Ord κ] [Std.TransOrd κ] [Std.LawfulEqOrd κ]
    [DecidableEq κ] (path : Pointer) (read : Pointer → String → α → Except Error (κ × β))
    (value : γ → β) {members : Members α} {t : Table κ γ} {write : κ × γ → String × α}
    (hmembers : members.Perm (t.entries.map write))
    (hkeys : ∀ e f, (write e).1 = (write f).1 → e.1 = f.1)
    (h : ∀ e ∈ t.entries,
      read (path.child (write e).1) (write e).1 (write e).2 = .ok (e.1, value e.2)) :
    ∃ bs, membersAt path members read = .ok bs ∧ Table.ofList bs = t.map value := by
  have hnodup : (t.entries.map fun e ↦ (write e).1).Nodup := by
    have ht : (t.entries.map Prod.fst).Nodup := t.keys_nodup
    exact List.pairwise_map.mpr ((List.pairwise_map.mp ht).imp fun hne heq ↦ hne (hkeys _ _ heq))
  obtain ⟨bs, hbs, hperm⟩ := membersAt_of_ok path read hmembers hnodup h
  exact ⟨bs, hbs, Table.ofList_of_perm hperm⟩

/-- What is read of members is read of one of them each. -/
theorem exists_of_membersAt {path : Pointer} {read : Pointer → String → α → Except Error β}
    {members : Members α} {bs : List β} (h : membersAt path members read = .ok bs) {b : β}
    (hb : b ∈ bs) : ∃ path key value, read path key value = .ok b := by
  obtain ⟨entries, -, hentries⟩ := Except.bind_eq_ok_iff.mp h
  obtain ⟨⟨key, value⟩, -, hread⟩ := Except.exists_of_mem_mapM hentries hb
  exact ⟨_, key, value, hread⟩

/-! ### Annotations, names and references -/

/-- Written annotations are read back. -/
theorem annotationsAt_of_members (path : Pointer) (notes : Annotations) :
    annotationsAt path (annotationMembers notes) = .ok notes := by
  have hread (e : Identifier × String) : identifierAt ((path.child "annotations").child e.1.text)
      e.1.text = .ok e.1 := by
    rw [identifierAt, Identifier.parse_text]
  obtain ⟨bs, hbs, htable⟩ := membersAt_of_table (t := notes) (path.child "annotations")
    (fun path key value ↦ do
      let id ← identifierAt path key
      pure (id, value))
    id (.refl (notes.entries.map fun e ↦ (e.1.text, e.2))) (fun _ _ ↦ Identifier.ext)
    fun e _ ↦ by
      dsimp only
      rw [hread]
      rfl
  have hmap : notes.map id = notes := Table.ext (by simp [Table.map, Table.mapEntries])
  rw [annotationsAt, annotationMembers, hbs]
  exact congrArg Except.ok (htable.trans hmap)

/-- Items are read if each of them is. -/
theorem itemsAt_of_ok {path : Pointer} {read : Pointer → α → Except Error β} {f : β → α}
    (h : ∀ path b, read path (f b) = .ok b) (bs : List β) (i : Nat) :
    itemsAt path read i (bs.map f) = .ok bs := by
  induction bs generalizing i with
  | nil => rfl
  | cons b bs ih =>
    rw [List.map_cons, itemsAt, h, ih]
    rfl

/-- The text of a name is read as the name. -/
theorem nameAt_text (path : Pointer) (n : Name) : nameAt path n.text = .ok n := by
  rw [nameAt, Name.parse_text]

/-- A name that is read has the text that it is read from. -/
theorem text_of_nameAt {path : Pointer} {text : String} {n : Name} (h : nameAt path text = .ok n) :
    n.text = text := by
  unfold nameAt at h
  split at h
  · next m hm =>
    cases h
    exact Name.parse_eq_ok_iff.mp hm
  · cases h

/-- An identifier that is read has the text that it is read from. -/
theorem text_of_identifierAt {path : Pointer} {text : String} {id : Identifier}
    (h : identifierAt path text = .ok id) : id.text = text := by
  unfold identifierAt at h
  split at h
  · next i hi =>
    cases h
    exact Identifier.parse_eq_ok_iff.mp hi
  · cases h

/-- A list that is left out if it is empty is read back. -/
theorem itemsAt_nonemptyList {read : Pointer → α → Except Error β} {f : β → α}
    (h : ∀ path b, read path (f b) = .ok b) (path : Pointer) (bs : List β) :
    itemsAt path read 0 ((nonemptyList f bs).getD []) = .ok bs := by
  cases bs with
  | nil => rfl
  | cons b bs => exact itemsAt_of_ok h (b :: bs) 0

end Document

end PolicySchema
