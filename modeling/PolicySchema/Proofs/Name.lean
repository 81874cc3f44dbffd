import PolicySchema.Name

/-!
# Names as texts

The text of a name is read as the name, so it determines the name. The full name of what a namespace
declares determines the namespace (`under_inj`).
-/

namespace PolicySchema

private theorem colon_not_mem (id : Identifier) : ':' ∉ id.text.toList := by
  have h := id.bare
  rw [isBare, Bool.and_eq_true, isWord] at h
  obtain ⟨hword, -⟩ := h
  intro hmem
  cases hw : id.text.toList with
  | nil => simp [hw] at hmem
  | cons c cs =>
    rw [hw] at hword hmem
    rw [isWordChars, Bool.and_eq_true, List.all_eq_true] at hword
    rcases List.mem_cons.mp hmem with rfl | hmem
    · exact absurd hword.1 (by decide)
    · exact absurd (hword.2 _ hmem) (by decide)

namespace Name

/-- A bare name is not in the namespace of the built-in types. -/
theorem builtin?_of_isBare {n : Name} (h : n.isBare = true) : n.builtin? = none := by
  simp only [isBare, List.isEmpty_iff] at h
  simp [builtin?, h]

private theorem splitComponents_cons {c : Char} (h : c ≠ ':') {cs part : List Char}
    {parts : List (List Char)} (hcs : splitComponents cs = part :: parts) :
    splitComponents (c :: cs) = (c :: part) :: parts := by
  simp [splitComponents, hcs, h]

private theorem splitComponents_append {part : List Char} (h : ':' ∉ part) (cs : List Char) :
    splitComponents (part ++ ':' :: ':' :: cs) = part :: splitComponents cs := by
  induction part with
  | nil => rfl
  | cons c part ih =>
    rw [List.mem_cons, not_or] at h
    exact splitComponents_cons (Ne.symm h.1) (ih h.2)

private theorem splitComponents_part {part : List Char} (h : ':' ∉ part) :
    splitComponents part = [part] := by
  induction part with
  | nil => rfl
  | cons c part ih =>
    rw [List.mem_cons, not_or] at h
    exact splitComponents_cons (Ne.symm h.1) (ih h.2)

private theorem splitComponents_intercalate (id : Identifier) (ids : List Identifier) :
    splitComponents (separator.intercalate ((id :: ids).map Identifier.text)).toList =
      (id :: ids).map fun id ↦ id.text.toList := by
  induction ids generalizing id with
  | nil => simpa [String.toList_intercalate] using splitComponents_part (colon_not_mem id)
  | cons next ids ih =>
    have h := splitComponents_append (colon_not_mem id)
      (separator.intercalate ((next :: ids).map Identifier.text)).toList
    rw [ih next] at h
    simp [String.toList_intercalate, separator, List.intercalate] at h ⊢
    exact h

private theorem parseComponents_text (whole : String) (ids : List Identifier) :
    parseComponents whole (ids.map fun id ↦ id.text.toList) = .ok ids := by
  induction ids with
  | nil => rfl
  | cons id ids ih =>
    rw [List.map_cons, parseComponents, String.ofList_toList, Identifier.parse_text, ih]
    rfl

/-- The text of a name is read as the name. -/
theorem parse_text (n : Name) : parse n.text = .ok n := by
  have hsplit : splitComponents n.text.toList = n.components.map fun id ↦ id.text.toList := by
    rw [text]
    cases hn : n.components with
    | nil => simp [components] at hn
    | cons id ids => exact splitComponents_intercalate id ids
  rw [parse, hsplit, parseComponents_text]
  simp only [ofComponents?_components]

private theorem splitComponents_ne_nil (cs : List Char) : splitComponents cs ≠ [] := by
  fun_cases splitComponents cs <;> simp

private theorem intercalate_splitComponents (cs : List Char) :
    separator.toList.intercalate (splitComponents cs) = cs := by
  have hseparator : separator.toList = [':', ':'] := rfl
  rw [hseparator]
  fun_induction splitComponents cs with
  | case1 cs ih =>
    obtain ⟨part, parts, hparts⟩ := List.exists_cons_of_ne_nil (splitComponents_ne_nil cs)
    rw [hparts] at ih ⊢
    simpa [List.intercalate] using ih
  | case2 c cs hc hnil ih => exact absurd hnil (splitComponents_ne_nil cs)
  | case3 c cs hc part parts hparts ih =>
    rw [hparts] at ih
    cases parts <;> simpa [List.intercalate] using ih
  | case4 => rfl

private theorem toList_of_parseComponents {whole : String} {parts : List (List Char)}
    {ids : List Identifier} (h : parseComponents whole parts = .ok ids) :
    ids.map (fun id ↦ id.text.toList) = parts := by
  induction parts generalizing ids with
  | nil =>
    cases h
    rfl
  | cons part parts ih =>
    rw [parseComponents] at h
    split at h
    · next id hid =>
      cases hrest : parseComponents whole parts with
      | error e =>
        rw [hrest] at h
        cases h
      | ok rest =>
        rw [hrest] at h
        cases h
        rw [List.map_cons, ih hrest, Identifier.parse_eq_ok_iff.mp hid, String.toList_ofList]
    · cases h
    · cases h

private theorem components_of_ofComponents? {ids : List Identifier} {n : Name}
    (h : ofComponents? ids = some n) : n.components = ids := by
  obtain ⟨basename, hlast, rfl⟩ := Option.map_eq_some_iff.mp h
  obtain ⟨path, rfl⟩ := List.getLast?_eq_some_iff.mp hlast
  rw [components, List.dropLast_concat]

/-- A text is read exactly as the name that has it. -/
theorem parse_eq_ok_iff {text : String} {n : Name} : parse text = .ok n ↔ n.text = text := by
  constructor
  · intro h
    rw [parse] at h
    split at h
    · cases h
    · next ids hids =>
      split at h
      · next m hm =>
        cases h
        rw [← String.toList_inj, Name.text, components_of_ofComponents? hm,
          String.toList_intercalate, List.map_map]
        have hparts : ids.map (String.toList ∘ Identifier.text) = splitComponents text.toList :=
          toList_of_parseComponents hids
        rw [hparts, intercalate_splitComponents]
      · cases h
  · rintro rfl
    exact parse_text n

/-- The text of a name determines it. -/
theorem text_inj {a b : Name} (h : a.text = b.text) : a = b := by
  have ha := parse_text a
  rw [h, parse_text] at ha
  exact (Except.ok.inj ha).symm

/-- The text of a name is not empty. -/
theorem text_ne_empty (n : Name) : n.text ≠ "" := by
  intro h
  have hn := parse_text n
  rw [h] at hn
  have hempty : parse "" = .error (.notName "") := rfl
  rw [hempty] at hn
  cases hn

/-! ### Declared names -/

/-- What a namespace declares is enclosed by the name of the namespace. -/
@[simp] theorem enclosing?_under (ns : Option Name) (id : Identifier) :
    (under ns id).enclosing? = ns := by
  cases ns with
  | none => rfl
  | some n =>
    change ofComponents? (n.components ++ []) = some n
    rw [List.append_nil, ofComponents?_components]

/-- An identifier is the last component of the name it takes in a namespace. -/
@[simp] theorem basename_under (ns : Option Name) (id : Identifier) :
    (under ns id).basename = id := by
  cases ns <;> rfl

/-- What is declared under different names, or in different namespaces, has different full names. -/
theorem under_inj {ns ns' : Option Name} {id id' : Identifier} :
    under ns id = under ns' id' ↔ ns = ns' ∧ id = id' := by
  constructor
  · intro h
    have hns := congrArg enclosing? h
    have hid := congrArg basename h
    rw [enclosing?_under, enclosing?_under] at hns
    rw [basename_under, basename_under] at hid
    exact ⟨hns, hid⟩
  · rintro ⟨rfl, rfl⟩
    rfl

end Name

end PolicySchema
