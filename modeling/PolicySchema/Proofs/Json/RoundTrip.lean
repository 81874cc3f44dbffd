import PolicySchema.Json.Read
import PolicySchema.Json.Write
import Mathlib.Tactic.SplitIfs

/-!
# Reading JSON that was written

The pretty form of a value without numbers is read as the value, if arrays and objects do not
enclose one another more often than the reader allows.
-/

namespace PolicySchema.Json

/-! ### Space -/

private theorem skipSpace_append {blank : List Char} (h : ∀ c ∈ blank, isSpace c = true)
    (cs : List Char) : skipSpace (blank ++ cs) = skipSpace cs :=
  List.dropWhile_append_of_pos h

private theorem skipSpace_cons {c : Char} (h : isSpace c = false) (cs : List Char) :
    skipSpace (c :: cs) = c :: cs := by
  rw [skipSpace, List.dropWhile_cons, h]
  rfl

private theorem isSpace_lineBreak (indent : Nat) : ∀ c ∈ lineBreak indent, isSpace c = true := by
  intro c hc
  rcases List.mem_cons.mp hc with rfl | hc
  · decide
  · rw [List.eq_of_mem_replicate hc]
    decide

/-! ### Strings -/

private theorem stringRest_short {c d : Char} (h : shortEscape? d = some c) (cs : List Char) :
    stringRest none ('\\' :: d :: cs) = addChar c (stringRest none cs) := by
  have hd : d ≠ 'u' := by
    rintro rfl
    simp [shortEscape?] at h
  rw [stringRest]
  · rw [h]
  · exact fun _ _ _ _ _ hu _ ↦ hd hu

private theorem stringRest_control {c : Char} (h : c.toNat < 0x20) (cs : List Char) :
    stringRest none (['\\', 'u', '0', '0', Hex.digit (c.toNat / 16), Hex.digit (c.toNat % 16)] ++
      cs) = addChar c (stringRest none cs) := by
  have hzero : Hex.value? '0' = some 0 := by decide
  have hunit : hexUnit? '0' '0' (Hex.digit (c.toNat / 16)) (Hex.digit (c.toNat % 16)) =
      some c.toNat := by
    rw [hexUnit?, hzero, Hex.value?_digit _ (by omega), Hex.value?_digit _ (by omega)]
    simp
    omega
  have hhigh : isHighHalf c.toNat = false := by
    simp [isHighHalf]
    omega
  have hlow : isLowHalf c.toNat = false := by
    simp [isLowHalf]
    omega
  simp [stringRest, hunit, hhigh, hlow]

private theorem stringRest_plain {c : Char} (hquote : c ≠ '"') (hslash : c ≠ '\\')
    (hcontrol : ¬ c.toNat < 0x20) (cs : List Char) :
    stringRest none (c :: cs) = addChar c (stringRest none cs) := by
  rw [stringRest]
  · rw [if_neg hcontrol]
  · exact fun _ _ _ _ _ h _ ↦ hslash h
  · exact fun _ _ h _ ↦ hslash h
  · exact hquote

private theorem stringRest_escapeChar (c : Char) (cs : List Char) :
    stringRest none (escapeChar c ++ cs) = addChar c (stringRest none cs) := by
  unfold escapeChar
  split_ifs with hquote hslash hback htab hline hfeed hreturn hcontrol
  · exact stringRest_short (by rw [hquote]; rfl) cs
  · exact stringRest_short (by rw [hslash]; rfl) cs
  · exact stringRest_short (by rw [hback]; rfl) cs
  · exact stringRest_short (by rw [htab]; rfl) cs
  · exact stringRest_short (by rw [hline]; rfl) cs
  · exact stringRest_short (by rw [hfeed]; rfl) cs
  · exact stringRest_short (by rw [hreturn]; rfl) cs
  · exact stringRest_control hcontrol cs
  · exact stringRest_plain hquote hslash hcontrol cs

private theorem stringRest_quoted (text rest : List Char) :
    stringRest none (text.flatMap escapeChar ++ '"' :: rest) = some (text, rest) := by
  induction text with
  | nil => rfl
  | cons c text ih =>
    rw [List.flatMap_cons, List.append_assoc, stringRest_escapeChar, ih]
    rfl

/-! ### Values -/

/-- The value has no numbers in it. -/
def HasNoNumbers (j : Json) : Prop := j.allNumbers (fun _ ↦ false) = true

/-- Every number in items satisfies a condition if every number in each of them does. -/
theorem allNumbersItems_iff {p : JsonNumber → Bool} {items : List Json} :
    allNumbersItems p items = true ↔ ∀ item ∈ items, allNumbers p item = true := by
  induction items with
  | nil => simp [allNumbersItems]
  | cons item items ih => simp [allNumbersItems, ih]

/-- Every number in members satisfies a condition if every number in the value of each of them
does. -/
theorem allNumbersMembers_iff {p : JsonNumber → Bool} {members : List (String × Json)} :
    allNumbersMembers p members = true ↔ ∀ m ∈ members, allNumbers p m.2 = true := by
  induction members with
  | nil => simp [allNumbersMembers]
  | cons m members ih => simp [allNumbersMembers, ih]

/-- Items are no deeper than a bound if each of them is. -/
theorem depthItems_le_iff {n : Nat} {items : List Json} :
    depthItems items ≤ n ↔ ∀ item ∈ items, depth item ≤ n := by
  induction items with
  | nil => simp [depthItems]
  | cons item items ih => rw [depthItems, Nat.max_le, ih, List.forall_mem_cons]

/-- Members are no deeper than a bound if the value of each of them is. -/
theorem depthMembers_le_iff {n : Nat} {members : List (String × Json)} :
    depthMembers members ≤ n ↔ ∀ m ∈ members, depth m.2 ≤ n := by
  induction members with
  | nil => simp [depthMembers]
  | cons m members ih => rw [depthMembers, Nat.max_le, ih, List.forall_mem_cons]

-- The written form of a value begins with a character that is neither a space nor the end of an
-- array.
private theorem prettyChars_front (indent : Nat) {j : Json} (h : j.HasNoNumbers) :
    ∃ c cs, prettyChars indent j = c :: cs ∧ isSpace c = false ∧ c ≠ ']' := by
  cases j with
  | null => exact ⟨_, _, rfl, by decide, by decide⟩
  | bool b => cases b <;> exact ⟨_, _, rfl, by decide, by decide⟩
  | number n => cases h
  | string s => exact ⟨_, _, rfl, by decide, by decide⟩
  | array items => cases items <;> exact ⟨_, _, rfl, by decide, by decide⟩
  | object members => cases members <;> exact ⟨_, _, rfl, by decide, by decide⟩

private def Reads (value : Read Json) (j : Json) : Prop :=
  ∀ indent blank rest, (∀ c ∈ blank, isSpace c = true) →
    value (blank ++ (prettyChars indent j ++ rest)) = some (j, rest)

private theorem itemsUpTo_pretty {value : Read Json} (indent outer : Nat) (rest : List Char) :
    ∀ (items : List Json) (item : Json) (blank : List Char) (steps : Nat),
      (∀ j ∈ item :: items, Reads value j) → (∀ c ∈ blank, isSpace c = true) →
      items.length < steps →
      itemsUpTo value steps (blank ++ (prettyChars indent item ++ (prettyItems indent items ++
        (lineBreak outer ++ ']' :: rest)))) = some (item :: items, rest) := by
  intro items
  induction items with
  | nil =>
    intro item blank steps h hblank hsteps
    obtain ⟨steps, rfl⟩ : ∃ n, steps = n + 1 := ⟨steps - 1, by omega⟩
    have hclose : skipSpace (lineBreak outer ++ ']' :: rest) = ']' :: rest := by
      rw [skipSpace_append (isSpace_lineBreak outer), skipSpace_cons (by decide)]
    rw [itemsUpTo, h item List.mem_cons_self indent blank _ hblank]
    simp [prettyItems, hclose]
  | cons next items ih =>
    intro item blank steps h hblank hsteps
    obtain ⟨steps, rfl⟩ : ∃ n, steps = n + 1 := ⟨steps - 1, by omega⟩
    have hrest := ih next (lineBreak indent) steps
      (fun j hj ↦ h j (List.mem_cons_of_mem _ hj)) (isSpace_lineBreak indent)
      (by rw [List.length_cons] at hsteps; omega)
    rw [itemsUpTo, h item List.mem_cons_self indent blank _ hblank]
    simp [prettyItems, skipSpace_cons (c := ',') (by decide), hrest]

section

variable {value : Read Json} {key : String} {item : Json} {indent n : Nat}
  {blank tail rest : List Char}

private theorem membersUpTo_last (hitem : Reads value item) (hblank : ∀ c ∈ blank, isSpace c = true)
    (htail : skipSpace tail = '}' :: rest) :
    membersUpTo value (n + 1) (blank ++ (stringChars key ++ (':' :: ' ' ::
      (prettyChars indent item ++ tail)))) = some ([(key, item)], rest) := by
  have hquoted := stringRest_quoted key.toList (':' :: ' ' :: (prettyChars indent item ++ tail))
  have hvalue := hitem indent [' '] tail (List.forall_mem_singleton.mpr (by decide))
  rw [List.singleton_append] at hvalue
  rw [membersUpTo, skipSpace_append hblank, stringChars]
  simp [skipSpace_cons (c := '"') (by decide), hquoted, skipSpace_cons (c := ':') (by decide),
    hvalue, htail]

private theorem membersUpTo_more {members : List (String × Json)} {cs : List Char}
    (hitem : Reads value item) (hblank : ∀ c ∈ blank, isSpace c = true)
    (htail : skipSpace tail = ',' :: cs) (hmore : membersUpTo value n cs = some (members, rest)) :
    membersUpTo value (n + 1) (blank ++ (stringChars key ++ (':' :: ' ' ::
      (prettyChars indent item ++ tail)))) = some ((key, item) :: members, rest) := by
  have hquoted := stringRest_quoted key.toList (':' :: ' ' :: (prettyChars indent item ++ tail))
  have hvalue := hitem indent [' '] tail (List.forall_mem_singleton.mpr (by decide))
  rw [List.singleton_append] at hvalue
  rw [membersUpTo, skipSpace_append hblank, stringChars]
  simp [skipSpace_cons (c := '"') (by decide), hquoted, skipSpace_cons (c := ':') (by decide),
    hvalue, htail, hmore]

end

private theorem membersUpTo_pretty {value : Read Json} (indent outer : Nat) (rest : List Char) :
    ∀ (members : List (String × Json)) (key : String) (item : Json) (blank : List Char)
      (steps : Nat), (∀ m ∈ (key, item) :: members, Reads value m.2) →
      (∀ c ∈ blank, isSpace c = true) → members.length < steps →
      membersUpTo value steps (blank ++ (stringChars key ++ (':' :: ' ' ::
        (prettyChars indent item ++ (prettyMembers indent members ++
          (lineBreak outer ++ '}' :: rest)))))) = some ((key, item) :: members, rest) := by
  intro members
  induction members with
  | nil =>
    intro key item blank steps h hblank hsteps
    obtain ⟨steps, rfl⟩ : ∃ n, steps = n + 1 := ⟨steps - 1, by omega⟩
    apply membersUpTo_last (h _ List.mem_cons_self) hblank
    rw [prettyMembers, List.nil_append, skipSpace_append (isSpace_lineBreak outer),
      skipSpace_cons (by decide)]
  | cons next members ih =>
    obtain ⟨nextKey, nextItem⟩ := next
    intro key item blank steps h hblank hsteps
    obtain ⟨steps, rfl⟩ : ∃ n, steps = n + 1 := ⟨steps - 1, by omega⟩
    have hrest := ih nextKey nextItem (lineBreak indent) steps
      (fun m hm ↦ h m (List.mem_cons_of_mem _ hm)) (isSpace_lineBreak indent)
      (by rw [List.length_cons] at hsteps; omega)
    refine membersUpTo_more (h _ List.mem_cons_self) hblank ?_ hrest
    simp [prettyMembers, skipSpace_cons (c := ',') (by decide)]

private theorem length_le_prettyItems (indent : Nat) (items : List Json) :
    items.length ≤ (prettyItems indent items).length := by
  induction items with
  | nil => simp
  | cons item items ih =>
    simp [prettyItems]
    omega

private theorem length_le_prettyMembers (indent : Nat) (members : List (String × Json)) :
    members.length ≤ (prettyMembers indent members).length := by
  induction members with
  | nil => simp
  | cons m members ih =>
    simp [prettyMembers]
    omega

private theorem valueUpTo_skip (room : Nat) {blank : List Char}
    (h : ∀ c ∈ blank, isSpace c = true) (cs : List Char) :
    valueUpTo room (blank ++ cs) = valueUpTo room cs := by
  cases room <;> rw [valueUpTo, valueLevel, valueLevel, skipSpace_append h]

private theorem valueLevel_string (inner? : Option (Read Json)) (text : String)
    (rest : List Char) :
    valueLevel inner? (stringChars text ++ rest) = some (string text, rest) := by
  have hquoted := stringRest_quoted text.toList rest
  rw [valueLevel, stringChars]
  simp only [List.cons_append, List.append_assoc, List.nil_append]
  rw [skipSpace_cons (by decide)]
  simp only [hquoted, Option.map_some, String.ofList_toList]

private theorem valueLevel_array {inner : Read Json} {items : List Json}
    (hnumbers : ∀ item ∈ items, item.HasNoNumbers) (h : ∀ item ∈ items, Reads inner item)
    (indent : Nat) (rest : List Char) :
    valueLevel (some inner) (prettyChars indent (array items) ++ rest) =
      some (array items, rest) := by
  rw [valueLevel]
  cases items with
  | nil => simp [prettyChars, skipSpace_cons (c := '[') (by decide),
      skipSpace_cons (c := ']') (by decide)]
  | cons item items =>
    obtain ⟨c, cs, hfront, hspace, hbracket⟩ :=
      prettyChars_front (indent + 2) (hnumbers item List.mem_cons_self)
    have hlength := length_le_prettyItems (indent + 2) items
    have hitems := itemsUpTo_pretty (indent + 2) indent rest items item []
      (c :: cs ++ (prettyItems (indent + 2) items ++ (lineBreak indent ++ ']' :: rest))).length h
      nofun (by simp; omega)
    rw [List.nil_append, hfront] at hitems
    simp only [prettyChars, List.cons_append, List.append_assoc, List.nil_append, hfront]
      at hitems ⊢
    simp only [List.length_cons, List.length_append] at hitems
    simp [skipSpace_cons (c := '[') (by decide), skipSpace_append (isSpace_lineBreak _),
      skipSpace_cons hspace, hbracket, hitems]

private theorem valueLevel_object {inner : Read Json} {members : List (String × Json)}
    (h : ∀ m ∈ members, Reads inner m.2) (indent : Nat) (rest : List Char) :
    valueLevel (some inner) (prettyChars indent (object members) ++ rest) =
      some (object members, rest) := by
  rw [valueLevel]
  cases members with
  | nil => simp [prettyChars, skipSpace_cons (c := '{') (by decide),
      skipSpace_cons (c := '}') (by decide)]
  | cons m members =>
    obtain ⟨key, value⟩ := m
    have hlength := length_le_prettyMembers (indent + 2) members
    have hmembers := membersUpTo_pretty (indent + 2) indent rest members key value []
      (stringChars key ++ (':' :: ' ' :: (prettyChars (indent + 2) value ++
        (prettyMembers (indent + 2) members ++ (lineBreak indent ++ '}' :: rest))))).length h
      nofun (by simp; omega)
    simp only [List.nil_append, stringChars, List.cons_append, List.append_assoc,
      List.length_cons, List.length_append] at hmembers
    simp [-List.length_flatMap, prettyChars, stringChars, skipSpace_cons (c := '{') (by decide),
      skipSpace_append (isSpace_lineBreak _), skipSpace_cons (c := '"') (by decide), hmembers]

-- The reader reads a value without numbers from its written form if the value is not deeper than
-- the reader goes.
private theorem reads_valueUpTo (room : Nat) : ∀ {j : Json}, j.HasNoNumbers → j.depth ≤ room →
    Reads (valueUpTo room) j := by
  -- A value without parts is read on every level.
  have hflat {j : Json} (hj : j.HasNoNumbers) (hdepth : j.depth = 0) (inner? : Option (Read Json))
      (indent : Nat) (rest : List Char) :
      valueLevel inner? (prettyChars indent j ++ rest) = some (j, rest) := by
    cases j with
    | null => simp [valueLevel, prettyChars, skipSpace_cons (c := 'n') (by decide)]
    | bool b =>
      cases b with
      | true => simp [valueLevel, prettyChars, skipSpace_cons (c := 't') (by decide)]
      | false => simp [valueLevel, prettyChars, skipSpace_cons (c := 'f') (by decide)]
    | number n => cases hj
    | string s => exact valueLevel_string inner? s rest
    | array items => cases hdepth
    | object members => cases hdepth
  induction room with
  | zero =>
    intro j hj hdepth indent blank rest hblank
    rw [valueUpTo_skip 0 hblank, valueUpTo]
    exact hflat hj (by omega) none indent rest
  | succ room ih =>
    intro j hj hdepth indent blank rest hblank
    rw [valueUpTo_skip _ hblank, valueUpTo]
    cases j with
    | array items =>
      have hitems : depthItems items ≤ room := Nat.le_of_succ_le_succ hdepth
      have hnumbers : ∀ item ∈ items, item.HasNoNumbers := allNumbersItems_iff.mp hj
      exact valueLevel_array hnumbers
        (fun item hi ↦ ih (hnumbers item hi) (depthItems_le_iff.mp hitems item hi)) indent rest
    | object members =>
      have hmembers : depthMembers members ≤ room := Nat.le_of_succ_le_succ hdepth
      have hnumbers : ∀ m ∈ members, m.2.HasNoNumbers := allNumbersMembers_iff.mp hj
      exact valueLevel_object
        (fun m hm ↦ ih (hnumbers m hm) (depthMembers_le_iff.mp hmembers m hm)) indent rest
    | _ => exact hflat hj rfl _ indent rest

/-- The pretty form of a value without numbers is read as the value. -/
theorem read?_pretty {j : Json} (hj : j.HasNoNumbers) (hdepth : j.depth ≤ maxDepth) :
    read? j.pretty.toList = some j := by
  have h := reads_valueUpTo maxDepth hj hdepth 0 [] [] nofun
  rw [List.nil_append, List.append_nil] at h
  rw [read?, pretty, String.toList_ofList, h]
  rfl

end PolicySchema.Json
