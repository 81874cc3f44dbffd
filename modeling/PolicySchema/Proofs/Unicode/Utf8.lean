import PolicySchema.Unicode.Utf8

/-!
# Decoding what was encoded

The bytes of a text are decoded as its characters, and what is decoded are the bytes of the
characters. So the characters before the first ill-formed part are those of the longest start of the
bytes that encodes a text (`prefix_wellFormedStart`).
-/

namespace PolicySchema.Unicode.Utf8

/-! ### Steps -/

private theorem first_two {n : Nat} (hmin : 2 ≤ n) (hmax : n < 0x20) :
    first (n + 0xC0) = ([], some ⟨n, 1, 0x80, 0xBF⟩) := by
  simp [first, show ¬ n + 0xC0 < 0x80 by omega, show ¬ n + 0xC0 < 0xC2 by omega,
    show n + 0xC0 < 0xE0 by omega]

private theorem first_three {n : Nat} (hmax : n < 0x10) :
    first (n + 0xE0) =
      ([], some ⟨n, 2, if n = 0 then 0xA0 else 0x80, if n = 0xD then 0x9F else 0xBF⟩) := by
  have h : ∀ n < 0x10, first (n + 0xE0) =
      ([], some ⟨n, 2, if n = 0 then 0xA0 else 0x80, if n = 0xD then 0x9F else 0xBF⟩) := by decide
  exact h n hmax

private theorem first_four {n : Nat} (hmax : n < 5) :
    first (n + 0xF0) =
      ([], some ⟨n, 3, if n = 0 then 0x90 else 0x80, if n = 4 then 0x8F else 0xBF⟩) := by
  have h : ∀ n < 5, first (n + 0xF0) =
      ([], some ⟨n, 3, if n = 0 then 0x90 else 0x80, if n = 4 then 0x8F else 0xBF⟩) := by decide
  exact h n hmax

private theorem partsFrom_ofNat (state : Option Pending) {b : Nat} (hb : b < 256)
    (bs : List UInt8) : partsFrom state (UInt8.ofNat b :: bs) =
      (step state b).1 ++ partsFrom (step state b).2 bs := by
  have hn : (UInt8.ofNat b).toNat = b := by
    rw [UInt8.toNat_ofNat']
    omega
  rw [partsFrom, hn]

private theorem partsFrom_continue {bits owed least greatest n : Nat} (hn : n < 64)
    (howed : 1 < owed) (hleast : least ≤ n + 0x80) (hgreatest : n + 0x80 ≤ greatest)
    (bs : List UInt8) :
    partsFrom (some ⟨bits, owed, least, greatest⟩) (UInt8.ofNat (n + 0x80) :: bs) =
      partsFrom (some ⟨bits * 64 + n, owed - 1, 0x80, 0xBF⟩) bs := by
  rw [partsFrom_ofNat _ (by omega), step]
  simp only [hleast, hgreatest, and_self, if_true, if_neg (Nat.not_le_of_lt howed),
    Nat.add_sub_cancel, List.nil_append]

private theorem partsFrom_complete {bits least greatest n : Nat} (hn : n < 64)
    (hleast : least ≤ n + 0x80) (hgreatest : n + 0x80 ≤ greatest) (bs : List UInt8) :
    partsFrom (some ⟨bits, 1, least, greatest⟩) (UInt8.ofNat (n + 0x80) :: bs) =
      some (Char.ofNat (bits * 64 + n)) :: partsFrom none bs := by
  rw [partsFrom_ofNat _ (by omega), step]
  simp only [hleast, hgreatest, and_self, if_true, Nat.le_refl, Nat.add_sub_cancel,
    List.singleton_append]

/-! ### Texts -/

private theorem partsFrom_encodeChar (c : Char) (bs : List UInt8) :
    partsFrom none (String.utf8EncodeChar c ++ bs) = some c :: partsFrom none bs := by
  have hc : c.val.toNat < 0xD800 ∨ 0xDFFF < c.val.toNat ∧ c.val.toNat < 0x110000 := c.valid
  have hof : Char.ofNat c.val.toNat = c := Char.ofNat_toNat c
  rw [String.utf8EncodeChar]
  generalize c.val.toNat = v at hc hof
  split
  · next h =>
    rw [List.singleton_append, partsFrom_ofNat none (by omega), step, first,
      if_pos (show v < 0x80 by omega), hof, List.singleton_append]
  · split
    · next h0 h =>
      have hfirst := first_two (n := v / 64 % 0x20) (by omega) (by omega)
      rw [List.cons_append, List.singleton_append, partsFrom_ofNat none (by omega), step, hfirst,
        List.nil_append, partsFrom_complete (by omega) (by omega) (by omega),
        show v / 64 % 0x20 * 64 + v % 0x40 = v by omega, hof]
    · split
      · next h1 h =>
        have hfirst := first_three (n := v / 4096 % 0x10) (by omega)
        rw [List.cons_append, List.cons_append, List.singleton_append,
          partsFrom_ofNat none (by omega), step, hfirst, List.nil_append,
          partsFrom_continue (by omega) (by omega) (by split <;> omega) (by split <;> omega),
          partsFrom_complete (by omega) (by omega) (by omega)]
        rw [show (v / 4096 % 0x10 * 64 + v / 64 % 0x40) * 64 + v % 0x40 = v by omega, hof]
      · next h2 =>
        have hfirst := first_four (n := v / 262144 % 8) (by omega)
        rw [List.cons_append, List.cons_append, List.cons_append, List.singleton_append,
          partsFrom_ofNat none (by omega), step, hfirst, List.nil_append,
          partsFrom_continue (by omega) (by omega) (by split <;> omega) (by split <;> omega),
          partsFrom_continue (by omega) (by omega) (by omega) (by omega),
          partsFrom_complete (by omega) (by omega) (by omega)]
        rw [show ((v / 262144 % 8 * 64 + v / 4096 % 0x40) * 64 + v / 64 % 0x40) * 64 + v % 0x40 = v
          by omega, hof]

private theorem parts_encode_append (cs : List Char) (bs : List UInt8) :
    parts (cs.flatMap String.utf8EncodeChar ++ bs) = cs.map some ++ parts bs := by
  induction cs with
  | nil => rfl
  | cons c cs ih =>
    rw [parts] at ih ⊢
    rw [List.flatMap_cons, List.append_assoc, partsFrom_encodeChar, ih, List.map_cons,
      List.cons_append]

/-- The bytes of a text are those of its characters. -/
theorem toUTF8_eq_encode (s : String) :
    s.toUTF8.data.toList = s.toList.flatMap String.utf8EncodeChar := by
  rw [String.toUTF8_eq_toByteArray, ← String.ofList_toList (s := s), String.toByteArray_ofList,
    String.toList_ofList]
  exact List.toList_data_toByteArray

/-- The bytes of a text are decoded as its characters. -/
theorem decode?_toUTF8 (s : String) : decode? s.toUTF8.data.toList = some s.toList := by
  have hparts := parts_encode_append s.toList []
  have hall (cs : List Char) : (cs.map some).mapM id = some cs := by
    induction cs with
    | nil => rfl
    | cons c cs ih => simp [ih]
  have hnil : parts [] = [] := rfl
  rw [List.append_nil, hnil, List.append_nil] at hparts
  rw [toUTF8_eq_encode, decode?, hparts, hall]

/-! ### What was decoded -/

private theorem partsFrom_cons (state : Option Pending) (b : UInt8) (bs : List UInt8) :
    partsFrom state (b :: bs) =
      (step state b.toNat).1 ++ partsFrom (step state b.toNat).2 bs := by
  cases state <;> rfl

private theorem partsFrom_some_ne_nil (p : Pending) (bs : List UInt8) :
    partsFrom (some p) bs ≠ [] := by
  induction bs generalizing p with
  | nil => nofun
  | cons b bs ih =>
    rw [partsFrom_cons, step]
    split
    · dsimp only
      split
      · nofun
      · exact ih _
    · nofun

private theorem continued_of_partsFrom {bits owed least greatest : Nat} {bs : List UInt8} {c : Char}
    {ps : List (Option Char)}
    (h : partsFrom (some ⟨bits, owed + 2, least, greatest⟩) bs = some c :: ps) :
    ∃ b bs', bs = b :: bs' ∧ (least ≤ b.toNat ∧ b.toNat ≤ greatest) ∧
      partsFrom (some ⟨bits * 64 + (b.toNat - 0x80), owed + 1, 0x80, 0xBF⟩) bs' =
        some c :: ps := by
  cases bs with
  | nil => cases h
  | cons b bs =>
    rw [partsFrom_cons, step] at h
    split at h
    · next hb => exact ⟨b, bs, rfl, hb, h⟩
    · cases h

private theorem completed_of_partsFrom {bits least greatest : Nat} {bs : List UInt8} {c : Char}
    {ps : List (Option Char)} (h : partsFrom (some ⟨bits, 1, least, greatest⟩) bs = some c :: ps) :
    ∃ b bs', bs = b :: bs' ∧ (least ≤ b.toNat ∧ b.toNat ≤ greatest) ∧
      Char.ofNat (bits * 64 + (b.toNat - 0x80)) = c ∧ parts bs' = ps := by
  cases bs with
  | nil => cases h
  | cons b bs =>
    rw [partsFrom_cons, step] at h
    split at h
    · next hb =>
      obtain ⟨hc, hps⟩ := List.cons.inj h
      exact ⟨b, bs, rfl, hb, Option.some.inj hc, hps⟩
    · cases h

private theorem toNat_ofNat {v : Nat} (hv : v < 0xD800 ∨ 0xDFFF < v ∧ v < 0x110000) :
    (Char.ofNat v).val.toNat = v := by
  rw [Char.ofNat, dif_pos (show v.isValidChar from hv)]
  rfl

/-! The sum that is taken of one to four bytes is written as these bytes. -/

private theorem encode_one {a : UInt8} (ha : a.toNat < 0x80) :
    String.utf8EncodeChar (Char.ofNat a.toNat) = [a] := by
  rw [String.utf8EncodeChar, toNat_ofNat (by omega), if_pos (by omega), UInt8.ofNat_toNat]

private theorem encode_two {a b : UInt8} (ha : 0xC2 ≤ a.toNat ∧ a.toNat < 0xE0)
    (hb : 0x80 ≤ b.toNat ∧ b.toNat ≤ 0xBF) :
    String.utf8EncodeChar (Char.ofNat ((a.toNat - 0xC0) * 64 + (b.toNat - 0x80))) = [a, b] := by
  rw [String.utf8EncodeChar, toNat_ofNat (by omega)]
  generalize hv : (a.toNat - 0xC0) * 64 + (b.toNat - 0x80) = v
  rw [if_neg (by omega), if_pos (by omega), show v / 64 % 0x20 + 0xC0 = a.toNat by omega,
    show v % 0x40 + 0x80 = b.toNat by omega, UInt8.ofNat_toNat, UInt8.ofNat_toNat]

private theorem encode_three {a b c : UInt8} (ha : 0xE0 ≤ a.toNat ∧ a.toNat < 0xF0)
    (hb : (if a.toNat - 0xE0 = 0 then 0xA0 else 0x80) ≤ b.toNat ∧
      b.toNat ≤ if a.toNat - 0xE0 = 0xD then 0x9F else 0xBF)
    (hc : 0x80 ≤ c.toNat ∧ c.toNat ≤ 0xBF) :
    String.utf8EncodeChar (Char.ofNat (((a.toNat - 0xE0) * 64 + (b.toNat - 0x80)) * 64 +
      (c.toNat - 0x80))) = [a, b, c] := by
  have hb' : 0x80 ≤ b.toNat ∧ b.toNat ≤ 0xBF := by split at hb <;> split at hb <;> omega
  have hmin : 0x800 ≤ ((a.toNat - 0xE0) * 64 + (b.toNat - 0x80)) * 64 := by
    split at hb <;> omega
  rw [String.utf8EncodeChar, toNat_ofNat (by split at hb <;> split at hb <;> omega)]
  generalize hv : ((a.toNat - 0xE0) * 64 + (b.toNat - 0x80)) * 64 + (c.toNat - 0x80) = v
  rw [if_neg (by omega), if_neg (by omega), if_pos (by omega),
    show v / 4096 % 0x10 + 0xE0 = a.toNat by omega, show v / 64 % 0x40 + 0x80 = b.toNat by omega,
    show v % 0x40 + 0x80 = c.toNat by omega, UInt8.ofNat_toNat, UInt8.ofNat_toNat,
    UInt8.ofNat_toNat]

private theorem encode_four {a b c d : UInt8} (ha : 0xF0 ≤ a.toNat ∧ a.toNat < 0xF5)
    (hb : (if a.toNat - 0xF0 = 0 then 0x90 else 0x80) ≤ b.toNat ∧
      b.toNat ≤ if a.toNat - 0xF0 = 4 then 0x8F else 0xBF)
    (hc : 0x80 ≤ c.toNat ∧ c.toNat ≤ 0xBF) (hd : 0x80 ≤ d.toNat ∧ d.toNat ≤ 0xBF) :
    String.utf8EncodeChar (Char.ofNat ((((a.toNat - 0xF0) * 64 + (b.toNat - 0x80)) * 64 +
      (c.toNat - 0x80)) * 64 + (d.toNat - 0x80))) = [a, b, c, d] := by
  have hb' : 0x80 ≤ b.toNat ∧ b.toNat ≤ 0xBF := by split at hb <;> split at hb <;> omega
  have hmin : 0x10 ≤ (a.toNat - 0xF0) * 64 + (b.toNat - 0x80) := by split at hb <;> omega
  have hmax : (a.toNat - 0xF0) * 64 + (b.toNat - 0x80) < 0x110 := by
    split at hb <;> split at hb <;> omega
  rw [String.utf8EncodeChar, toNat_ofNat (by omega)]
  generalize hv : (((a.toNat - 0xF0) * 64 + (b.toNat - 0x80)) * 64 + (c.toNat - 0x80)) * 64 +
    (d.toNat - 0x80) = v
  rw [if_neg (by omega), if_neg (by omega), if_neg (by omega),
    show v / 262144 % 8 + 0xF0 = a.toNat by omega, show v / 4096 % 0x40 + 0x80 = b.toNat by omega,
    show v / 64 % 0x40 + 0x80 = c.toNat by omega, show v % 0x40 + 0x80 = d.toNat by omega,
    UInt8.ofNat_toNat, UInt8.ofNat_toNat, UInt8.ofNat_toNat, UInt8.ofNat_toNat]

-- A byte between characters is a character, it is an ill-formed part, or it is the first of two,
-- three or four.
private theorem first_cases (b : Nat) :
    (b < 0x80 ∧ first b = ([some (Char.ofNat b)], none)) ∨ first b = ([none], none) ∨
    ((0xC2 ≤ b ∧ b < 0xE0) ∧ first b = ([], some ⟨b - 0xC0, 1, 0x80, 0xBF⟩)) ∨
    ((0xE0 ≤ b ∧ b < 0xF0) ∧ first b = ([], some ⟨b - 0xE0, 2,
      if b - 0xE0 = 0 then 0xA0 else 0x80, if b - 0xE0 = 0xD then 0x9F else 0xBF⟩)) ∨
    ((0xF0 ≤ b ∧ b < 0xF5) ∧ first b = ([], some ⟨b - 0xF0, 3,
      if b - 0xF0 = 0 then 0x90 else 0x80, if b - 0xF0 = 4 then 0x8F else 0xBF⟩)) := by
  by_cases h1 : b < 0x80
  · exact .inl ⟨h1, by rw [first, if_pos h1]⟩
  refine .inr ?_
  by_cases hother : b < 0xC2 ∨ 0xF5 ≤ b
  · left
    rw [first, if_neg h1]
    rcases hother with h | h
    · rw [if_pos h]
    · repeat rw [if_neg (by omega)]
  refine .inr ?_
  by_cases h2 : b < 0xE0
  · have hfirst := first_two (n := b - 0xC0) (by omega) (by omega)
    rw [Nat.sub_add_cancel (by omega)] at hfirst
    exact .inl ⟨by omega, hfirst⟩
  refine .inr ?_
  by_cases h3 : b < 0xF0
  · have hfirst := first_three (n := b - 0xE0) (by omega)
    rw [Nat.sub_add_cancel (by omega)] at hfirst
    exact .inl ⟨by omega, hfirst⟩
  · have hfirst := first_four (n := b - 0xF0) (by omega)
    rw [Nat.sub_add_cancel (by omega)] at hfirst
    exact .inr ⟨by omega, hfirst⟩

private theorem eq_nil_of_parts {bs : List UInt8} (h : parts bs = []) : bs = [] := by
  cases bs with
  | nil => rfl
  | cons b bs =>
    rw [parts, partsFrom_cons, step] at h
    rcases first_cases b.toNat with ⟨_, hb⟩ | hb | ⟨_, hb⟩ | ⟨_, hb⟩ | ⟨_, hb⟩ <;> rw [hb] at h
    · cases h
    · cases h
    all_goals exact absurd h (partsFrom_some_ne_nil _ bs)

private theorem encode_of_parts {bs : List UInt8} {c : Char} {ps : List (Option Char)}
    (h : parts bs = some c :: ps) :
    ∃ rest, bs = String.utf8EncodeChar c ++ rest ∧ parts rest = ps := by
  cases bs with
  | nil => cases h
  | cons a bs =>
    rw [parts, partsFrom_cons, step] at h
    rcases first_cases a.toNat with ⟨ha, hfirst⟩ | hfirst | ⟨ha, hfirst⟩ | ⟨ha, hfirst⟩ |
      ⟨ha, hfirst⟩ <;> rw [hfirst] at h
    · rw [List.singleton_append, List.cons.injEq, Option.some.injEq] at h
      obtain ⟨rfl, h⟩ := h
      exact ⟨bs, by rw [encode_one ha, List.singleton_append], h⟩
    · cases h
    · obtain ⟨b, bs, rfl, hb, rfl, hbs⟩ := completed_of_partsFrom h
      exact ⟨bs, by rw [encode_two ha hb]; rfl, hbs⟩
    · obtain ⟨b, bs, rfl, hb, h⟩ := continued_of_partsFrom h
      obtain ⟨c, bs, rfl, hc, rfl, hbs⟩ := completed_of_partsFrom h
      exact ⟨bs, by rw [encode_three ha hb hc]; rfl, hbs⟩
    · obtain ⟨b, bs, rfl, hb, h⟩ := continued_of_partsFrom h
      obtain ⟨c, bs, rfl, hc, h⟩ := continued_of_partsFrom h
      obtain ⟨d, bs, rfl, hd, rfl, hbs⟩ := completed_of_partsFrom h
      exact ⟨bs, by rw [encode_four ha hb hc hd]; rfl, hbs⟩

private theorem encode_of_parts_append (cs : List Char) {bs : List UInt8}
    {ps : List (Option Char)} (h : parts bs = cs.map some ++ ps) :
    ∃ rest, bs = cs.flatMap String.utf8EncodeChar ++ rest ∧ parts rest = ps := by
  induction cs generalizing bs with
  | nil => exact ⟨bs, rfl, h⟩
  | cons c cs ih =>
    obtain ⟨bs, rfl, hbs⟩ := encode_of_parts h
    obtain ⟨rest, rfl, hrest⟩ := ih hbs
    exact ⟨rest, by rw [List.flatMap_cons, List.append_assoc], hrest⟩

private theorem mapM_or (ps : List (Option Char)) :
    (∃ cs : List Char, ps.mapM id = some cs ∧ ps = cs.map some) ∨
      ∃ (cs : List Char) (more : List (Option Char)), ps.mapM id = none ∧
        ps = cs.map some ++ none :: more := by
  induction ps with
  | nil => exact .inl ⟨[], rfl, rfl⟩
  | cons p ps ih =>
    cases p with
    | none => exact .inr ⟨[], ps, rfl, rfl⟩
    | some c =>
      rcases ih with ⟨cs, hcs, rfl⟩ | ⟨cs, more, hcs, rfl⟩
      · exact .inl ⟨c :: cs, by rw [List.mapM_cons, hcs]; rfl, rfl⟩
      · exact .inr ⟨c :: cs, more, by rw [List.mapM_cons, hcs]; rfl, rfl⟩

private theorem wellFormedStart_of_parts (cs : List Char) {bs : List UInt8}
    {ps : List (Option Char)} (h : parts bs = cs.map some ++ ps) :
    wellFormedStart bs = cs ++ (ps.takeWhile Option.isSome).filterMap id := by
  have hall : ∀ o ∈ cs.map some, Option.isSome o = true := by simp
  rw [wellFormedStart, h, List.takeWhile_append_of_pos hall, List.filterMap_append,
    List.filterMap_map]
  exact congrArg (· ++ _) List.filterMap_some

/-- A start of the bytes that encodes characters encodes characters before the first ill-formed
part. -/
theorem prefix_wellFormedStart {cs : List Char} {bytes : List UInt8}
    (h : cs.flatMap String.utf8EncodeChar <+: bytes) : cs <+: wellFormedStart bytes := by
  obtain ⟨rest, rfl⟩ := h
  rw [wellFormedStart_of_parts cs (parts_encode_append cs rest)]
  exact List.prefix_append ..

/-- What is decoded are the bytes of the characters. -/
theorem encode_of_decode? {cs : List Char} {bytes : List UInt8} (h : decode? bytes = some cs) :
    cs.flatMap String.utf8EncodeChar = bytes := by
  rcases mapM_or (parts bytes) with ⟨ds, hds, hparts⟩ | ⟨_, _, hnone, _⟩
  · obtain rfl := Option.some.inj (hds.symm.trans h)
    rw [← List.append_nil (ds.map some)] at hparts
    obtain ⟨rest, rfl, hrest⟩ := encode_of_parts_append ds hparts
    rw [eq_nil_of_parts hrest, List.append_nil]
  · rw [decode?, hnone] at h
    cases h

/-- Bytes that are not decoded go on after the characters before the first ill-formed part with that
part, which is shown as the replacement character. -/
theorem wellFormedStart_of_decode? {bytes : List UInt8} (h : decode? bytes = none) :
    (wellFormedStart bytes).flatMap String.utf8EncodeChar <+: bytes ∧
      ∃ more, decodeLossy bytes = wellFormedStart bytes ++ '\uFFFD' :: more := by
  rcases mapM_or (parts bytes) with ⟨ds, hds, _⟩ | ⟨cs, more, _, hparts⟩
  · rw [decode?, hds] at h
    cases h
  · have hstart : wellFormedStart bytes = cs := by
      rw [wellFormedStart_of_parts cs hparts]
      exact List.append_nil cs
    obtain ⟨rest, hrest, -⟩ := encode_of_parts_append cs hparts
    rw [hstart, decodeLossy, hparts]
    refine ⟨⟨rest, hrest.symm⟩, more.map (·.getD '\uFFFD'), ?_⟩
    rw [List.map_append, List.map_map, List.map_cons]
    exact congrArg (· ++ _) (List.map_id cs)

end PolicySchema.Unicode.Utf8
