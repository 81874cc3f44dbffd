import PolicySchema.Proofs.Text.WrittenTokens

/-!
# Scanning across a line break

A line break ends every token and every comment to the end of a line. So a text that scans to its
end scans in the same way when a line break and more stand after it, wherever it begins, and the
tokens of what stands after it follow (`ScansAs.append_line`).
-/

namespace PolicySchema.Text

private def IsSeam (xs : List Char) : Prop := ∀ c ∈ xs.head?, c = '\n'

private def SameGap : Gap → Gap → Prop
  | .between, .between | .line, .line | .block _, .block _ => True
  | _, _ => False

variable {xs : List Char}

private theorem IsSeam.ne_cons (hxs : IsSeam xs) {c : Char} (hc : c ≠ '\n') {cs ds : List Char}
    (h : ∀ es, cs = c :: es → False) : cs ++ xs = c :: ds → False := by
  intro heq
  cases cs with
  | nil =>
    rw [List.nil_append] at heq
    subst heq
    exact hc (hxs c rfl)
  | cons d cs =>
    cases heq
    exact h cs rfl

private theorem skipGap_append (hxs : IsSeam xs) (g : Gap) (p : Position) (cs : List Char) :
    ∀ (g' : Gap) (p' : Position) {stop : Cursor}, SameGap g g' →
      skipGap g p cs = (.ok (), stop) →
      (stop.rest ≠ [] → ∃ q, skipGap g' p' (cs ++ xs) = (.ok (), ⟨q, stop.rest ++ xs⟩)) ∧
        (stop.rest = [] → ∃ g'' q, (g'' = .between ∨ g'' = .line) ∧
          skipGap g' p' (cs ++ xs) = skipGap g'' q xs) := by
  -- Along the skipping, which goes on in the gap that it came to. No slash or star is at a seam, so
  -- a comment starts or ends with the seam only if it does without it.
  fun_induction skipGap g p cs with
  | case1 p cs ih =>
    intro g' p' stop hg h
    cases g' <;> cases hg
    simp only [List.cons_append, skipGap]
    exact ih _ _ trivial h
  | case2 p cs ih =>
    intro g' p' stop hg h
    cases g' <;> cases hg
    simp only [List.cons_append, skipGap]
    exact ih _ _ trivial h
  | case3 p c cs hslash hstar hblank ih =>
    intro g' p' stop hg h
    cases g' <;> cases hg
    rw [List.cons_append, skipGap, if_pos hblank]
    · exact ih _ _ trivial h
    · rintro ds rfl
      exact hxs.ne_cons (by decide) fun es ↦ hslash es rfl
    · rintro ds rfl
      exact hxs.ne_cons (by decide) fun es ↦ hstar es rfl
  | case4 p c cs hslash hstar hblank =>
    intro g' p' stop hg h
    cases g' <;> cases hg
    cases h
    refine ⟨fun _ ↦ ⟨p', ?_⟩, fun h ↦ absurd h (List.cons_ne_nil c cs)⟩
    rw [List.cons_append, skipGap, if_neg hblank]
    · rintro ds rfl
      exact hxs.ne_cons (by decide) fun es ↦ hslash es rfl
    · rintro ds rfl
      exact hxs.ne_cons (by decide) fun es ↦ hstar es rfl
  | case5 p =>
    intro g' p' stop hg h
    cases g' <;> cases hg
    cases h
    exact ⟨fun hne ↦ absurd rfl hne, fun _ ↦ ⟨.between, p', .inl rfl, rfl⟩⟩
  | case6 p c cs ih =>
    intro g' p' stop hg h
    cases g' <;> cases hg
    simp only [List.cons_append, skipGap]
    refine ih _ _ ?_ h
    split <;> trivial
  | case7 p =>
    intro g' p' stop hg h
    cases g' <;> cases hg
    cases h
    exact ⟨fun hne ↦ absurd rfl hne, fun _ ↦ ⟨.line, p', .inr rfl, rfl⟩⟩
  | case8 opened p cs ih =>
    intro g' p' stop hg h
    cases g' <;> cases hg
    simp only [List.cons_append, skipGap]
    exact ih _ _ trivial h
  | case9 opened p c cs hclose ih =>
    intro g' p' stop hg h
    cases g' <;> cases hg
    rw [List.cons_append, skipGap]
    · exact ih _ _ trivial h
    · rintro ds rfl
      exact hxs.ne_cons (by decide) fun es ↦ hclose es rfl
  | case10 opened p =>
    intro g' p' stop hg h
    cases h

private theorem prepend_eq_ok {written : List Char} {c : Char}
    {r : Except Failure LiteralText × Cursor} {l : LiteralText} {stop : Cursor}
    (h : prepend written c r = (.ok l, stop)) :
    ∃ l', r = (.ok l', stop) ∧ l = l'.add written c := by
  obtain ⟨_ | l', stop'⟩ := r <;> cases h
  exact ⟨l', rfl, rfl⟩

private theorem scanLiteral_append (xs : List Char) (opened p : Position) (cs : List Char) :
    ∀ (opened' p' : Position) {l : LiteralText} {stop : Cursor},
      scanLiteral opened p cs = (.ok l, stop) →
      ∃ q, scanLiteral opened' p' (cs ++ xs) = (.ok l, ⟨q, stop.rest ++ xs⟩) := by
  fun_induction scanLiteral opened p cs with
  | case2 p cs =>
    intro opened' p' l stop h
    cases h
    exact ⟨_, rfl⟩
  | case4 p a b cs m n hb ha ih =>
    intro opened' p' l stop h
    obtain ⟨l, hl, rfl⟩ := prepend_eq_ok h
    obtain ⟨q, hq⟩ := ih _ _ hl
    simp only [List.cons_append]
    rw [scanLiteral, ha, hb]
    dsimp only
    rw [hq]
    exact ⟨q, rfl⟩
  | case11 p d cs _ _ _ _ value hvalue =>
    rename_i ih
    intro opened' p' l stop h
    obtain ⟨l, hl, rfl⟩ := prepend_eq_ok h
    obtain ⟨q, hq⟩ := ih _ _ hl
    simp only [List.cons_append]
    rw [scanLiteral_unescape hvalue, hq]
    exact ⟨q, rfl⟩
  | case14 p c cs hquote hend _ _ hescape hline ih =>
    intro opened' p' l stop h
    obtain ⟨l, hl, rfl⟩ := prepend_eq_ok h
    obtain ⟨q, hq⟩ := ih _ _ hl
    have hslash : c ≠ '\\' := by
      intro hc
      cases cs with
      | nil => exact hend hc rfl
      | cons d cs => exact hescape d cs hc rfl
    rw [List.cons_append, scanLiteral_plain hquote hslash hline, hq]
    exact ⟨q, rfl⟩
  -- In the other cases the literal is cut off or has a bad escape.
  | _ =>
    intro opened' p' l stop h
    cases h

private theorem splitWord_append (hxs : IsSeam xs) (cs : List Char) :
    splitWord (cs ++ xs) = ((splitWord cs).1, (splitWord cs).2 ++ xs) := by
  simp only [splitWord, List.span_eq_takeWhile_dropWhile]
  induction cs with
  | nil =>
    cases xs with
    | nil => rfl
    | cons d xs =>
      obtain rfl := hxs d rfl
      rfl
  | cons c cs ih =>
    rw [Prod.mk.injEq] at ih
    cases h : isWordContinue c <;> simp [h, ih]

private theorem splitMark?_append (hxs : IsSeam xs) {cs rest : List Char} {m : Mark}
    (h : splitMark? cs = some (m, rest)) : splitMark? (cs ++ xs) = some (m, rest ++ xs) := by
  unfold splitMark? at h
  split at h <;> cases h
  case h_2 cs hcolon =>
    rw [List.cons_append, splitMark?]
    exact fun ds ↦ hxs.ne_cons (by decide) hcolon
  all_goals rfl

private theorem scanToken_append (hxs : IsSeam xs) {p : Position} {cs : List Char} {t : Token}
    {stop : Cursor} (hcs : cs ≠ []) (h : scanToken p cs = (.ok t, stop)) (p' : Position) :
    ∃ t' q, scanToken p' (cs ++ xs) = (.ok t', ⟨q, stop.rest ++ xs⟩) ∧ t'.symbol = t.symbol ∧
      t'.kind = t.kind := by
  unfold scanToken at h
  split at h
  · exact absurd rfl hcs
  · next cs =>
    dsimp only at h
    generalize hl : scanLiteral p (p.advance '"') cs = r at h
    obtain ⟨_ | l, stop'⟩ := r <;> cases h
    obtain ⟨q, hq⟩ := scanLiteral_append xs p (p.advance '"') cs p' (p'.advance '"') hl
    refine ⟨⟨.literal, String.ofList ('"' :: l.written), String.ofList l.value, p'⟩, q, ?_, rfl,
      rfl⟩
    rw [List.cons_append, scanToken, hq]
    rfl
  · next c cs hquote =>
    rw [List.cons_append, scanToken]
    · split at h
      · next hstart =>
        rw [if_pos hstart, splitWord_append hxs]
        generalize splitWord cs = r at h ⊢
        obtain ⟨more, rest⟩ := r
        cases h
        exact ⟨_, _, rfl, rfl, rfl⟩
      · next hstart =>
        rw [if_neg hstart]
        split at h
        · next m rest hm =>
          cases h
          rw [← List.cons_append, splitMark?_append hxs hm]
          exact ⟨_, _, rfl, rfl, rfl⟩
        · cases h
    · exact hquote

/-! ### Texts -/

private theorem next_append (hxs : IsSeam xs) {p : Position} {cs : List Char} {t : Token}
    {stop : Cursor} (h : Cursor.next ⟨p, cs⟩ = (.ok t, stop)) (ht : t.kind ≠ .endOfInput)
    (p' : Position) :
    ∃ t' q, Cursor.next ⟨p', cs ++ xs⟩ = (.ok t', ⟨q, stop.rest ++ xs⟩) ∧ t'.symbol = t.symbol ∧
      t'.kind = t.kind := by
  rw [Cursor.next] at h
  split at h
  · cases h
  · next gap hgap =>
    have hne : gap.rest ≠ [] := (scanToken_endOfInput_iff (congrArg Prod.fst h)).not.mp ht
    obtain ⟨q, hq⟩ :=
      (skipGap_append hxs .between _ _ .between p' trivial hgap).1 hne
    obtain ⟨t', q', ht', hsame⟩ := scanToken_append hxs hne h q
    refine ⟨t', q', ?_, hsame⟩
    rw [Cursor.next, hq]
    exact ht'

private theorem skipGap_end (hxs : IsSeam xs) {p : Position} {cs : List Char} {t : Token}
    {stop : Cursor} (h : Cursor.next ⟨p, cs⟩ = (.ok t, stop)) (ht : t.kind = .endOfInput)
    (p' : Position) :
    ∃ g q, (g = .between ∨ g = .line) ∧
      skipGap .between p' (cs ++ xs) = skipGap g q xs := by
  rw [Cursor.next] at h
  split at h
  · cases h
  · next gap hgap =>
    have hnil := (scanToken_endOfInput_iff (congrArg Prod.fst h)).mp ht
    exact (skipGap_append hxs .between _ _ .between p' trivial hgap).2 hnil

private def GoesOn (xs : List Char) (us : List Symbol) : Prop :=
  ∀ p cs g q, (g = .between ∨ g = .line) → skipGap .between p cs = skipGap g q xs →
    ∀ steps, xs.length ≤ steps → ∃ eof tokens, scanFrom steps ⟨p, cs⟩ = ⟨tokens, .ok eof⟩ ∧
      tokens.map Token.symbol = us

private theorem goesOn_nil : GoesOn [] [] := by
  rintro p cs g q hg hskip steps -
  have hnext : Cursor.next ⟨p, cs⟩ = Cursor.next ⟨q, []⟩ := by
    rw [Cursor.next, Cursor.next, hskip]
    rcases hg with rfl | rfl <;> rfl
  rw [scanFrom_congr hnext]
  exact scansAs_nil q steps (Nat.zero_le _)

private theorem goesOn_line {ds : List Char} {us : List Symbol} (h : ScansAs ds us) :
    GoesOn ('\n' :: ds) us := by
  rintro p cs g q hg hskip steps hsteps
  have hnext : Cursor.next ⟨p, cs⟩ = Cursor.next ⟨q.advance '\n', ds⟩ := by
    rw [Cursor.next, Cursor.next, hskip]
    rcases hg with rfl | rfl <;> rfl
  rw [scanFrom_congr hnext]
  exact h _ _ (Nat.le_of_succ_le hsteps)

private theorem scansAs_of_scanFrom {xs : List Char} (hxs : IsSeam xs) {us : List Symbol}
    (hgo : GoesOn xs us) (steps : Nat) {eof : Token} (heof : eof.kind = .endOfInput) :
    ∀ (p : Position) (cs : List Char) {tokens : List Token},
      scanFrom steps ⟨p, cs⟩ = ⟨tokens, .ok eof⟩ →
      ScansAs (cs ++ xs) (tokens.map Token.symbol ++ us) := by
  have hlast {p : Position} {cs : List Char} {t : Token} {stop : Cursor}
      (h : Cursor.next ⟨p, cs⟩ = (.ok t, stop)) (ht : t.kind = .endOfInput) :
      ScansAs (cs ++ xs) us := by
    intro p' steps hsteps
    obtain ⟨g, q, hg, hskip⟩ := skipGap_end hxs h ht p'
    exact hgo _ _ g q hg hskip steps (Nat.le_trans (by simp) hsteps)
  induction steps with
  | zero =>
    intro p cs tokens h
    obtain ⟨rfl, hnext⟩ := Scanned.mk.inj h
    exact hlast (Prod.ext hnext rfl) heof
  | succ steps ih =>
    intro p cs tokens h
    rw [scanFrom] at h
    split at h
    · cases h
    · next t after hnext =>
      split at h
      · next ht =>
        cases h
        exact hlast hnext ht
      · next ht =>
        generalize hmore : scanFrom steps after = more at h
        obtain ⟨moreTokens, ending⟩ := more
        cases h
        have hrest := ih _ _ hmore
        -- A token takes a character at least, so the steps that are left are enough for the rest.
        intro p' steps' hsteps'
        obtain ⟨t', q, hnext', hsymbol, hkind⟩ := next_append hxs hnext ht p'
        have hlt := next_length_lt (congrArg Prod.fst hnext) ht
        rw [hnext] at hlt
        rw [List.length_append] at hsteps'
        dsimp only at hlt
        obtain ⟨n, rfl⟩ : ∃ n, steps' = n + 1 := ⟨steps' - 1, by omega⟩
        obtain ⟨last, tokens, hscan, htokens⟩ := hrest q n (by rw [List.length_append]; omega)
        refine ⟨last, t' :: tokens, ?_, ?_⟩
        · rw [scanFrom, hnext']
          simp only [hkind, if_neg ht, hscan]
        · rw [List.map_cons, List.map_cons, List.cons_append, htokens, hsymbol]

private theorem scanFrom_of_ending {text : String} {eof : Token}
    (h : (scan text).ending = .ok eof) :
    scanFrom text.toList.length ⟨.start, text.toList⟩ = ⟨(scan text).tokens, .ok eof⟩ := by
  rw [← h]
  rfl

/-- A text that scans to its end scans to the same symbols wherever it begins. -/
theorem scansAs_of_scan {text : String} {eof : Token} (h : (scan text).ending = .ok eof) :
    ScansAs text.toList ((scan text).tokens.map Token.symbol) := by
  have hkind := (scan_ends text .ample eof h).kind_endOfInput_iff.mpr rfl
  have hnil : IsSeam [] := nofun
  have hall := scansAs_of_scanFrom hnil goesOn_nil _ hkind _ _ (scanFrom_of_ending h)
  rwa [List.append_nil, List.append_nil] at hall

/-- What stands after a line break does not change the tokens before it, and the other way round. -/
theorem ScansAs.append_line {text : String} {eof : Token} (h : (scan text).ending = .ok eof)
    {ds : List Char} {us : List Symbol} (hds : ScansAs ds us) :
    ScansAs (text.toList ++ '\n' :: ds) ((scan text).tokens.map Token.symbol ++ us) := by
  have hkind := (scan_ends text .ample eof h).kind_endOfInput_iff.mpr rfl
  refine scansAs_of_scanFrom ?_ (goesOn_line hds) _ hkind _ _ (scanFrom_of_ending h)
  rintro c ⟨⟩
  rfl

end PolicySchema.Text
