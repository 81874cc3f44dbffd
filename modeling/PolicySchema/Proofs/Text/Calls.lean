import Mathlib.Data.Nat.Find
import PolicySchema.Proofs.Text.Spans
import PolicySchema.Text.Calls

/-!
# Scanning makes progress

A call for the next token takes a character unless nothing but blanks and comments is left, also
where it fails and after other calls have failed. So the end of input is reached, it is given over
and over from there on, and an iteration gives what the calls give up to the first outcome that is
final (`calls_progress`).
-/

namespace PolicySchema.Text

variable {cursor stop : Cursor}

/-! ### One call -/

private theorem rest_of_skipGap_error (gap : Gap) (p : Position) (cs : List Char) {f : Failure}
    (h : skipGap gap p cs = (.error f, stop)) : stop.rest = [] := by
  fun_induction skipGap gap p cs with
  | case1 _ _ ih => exact ih h
  | case2 _ _ ih => exact ih h
  | case3 _ _ _ _ _ _ ih => exact ih h
  | case6 _ _ _ ih => exact ih h
  | case8 _ _ _ ih => exact ih h
  | case9 _ _ _ _ _ ih => exact ih h
  | case10 _ _ =>
    cases h
    rfl
  | _ => cases h

private theorem rest_length_lt (h : isEnd cursor.next.1 = false) :
    cursor.next.2.rest.length < cursor.rest.length := by
  have hgap := skipGap_length_le .between cursor.position cursor.rest
  unfold Cursor.next at h ⊢
  split
  · next f stop hskip =>
    rw [rest_of_skipGap_error _ _ _ hskip]
    refine List.length_pos_iff.mpr fun hnil ↦ ?_
    rw [hnil] at hskip
    cases hskip
  · next stop hskip =>
    rw [hskip] at h hgap
    refine Nat.lt_of_lt_of_le (scanToken_length_lt _ fun hnil ↦ ?_) hgap
    dsimp only at h
    rw [hnil] at h
    cases h

private theorem next_of_isEnd (h : isEnd cursor.next.1 = true) :
    ∃ p, cursor.next = (.ok ⟨.endOfInput, "", "", p⟩, ⟨p, []⟩) := by
  unfold Cursor.next at h ⊢
  split
  · next f stop hskip =>
    rw [hskip] at h
    cases h
  · next stop hskip =>
    rw [hskip] at h
    dsimp only at h
    cases hscan : (scanToken stop.position stop.rest).1 with
    | error f =>
      rw [hscan] at h
      cases h
    | ok t =>
      rw [hscan] at h
      rw [(scanToken_endOfInput_iff hscan).mp (of_decide_eq_true h)]
      exact ⟨stop.position, rfl⟩

/-! ### Many calls -/

private theorem afterCalls_succ (cursor : Cursor) (n : Nat) :
    cursor.afterCalls (n + 1) = (cursor.afterCalls n).next.2 := by
  induction n generalizing cursor with
  | zero => rfl
  | succ n ih => exact ih cursor.next.2

private theorem call_of_isEnd {n : Nat} (h : isEnd (cursor.call n) = true) :
    ∃ p, ∀ m ≥ n, cursor.call m = .ok ⟨.endOfInput, "", "", p⟩ ∧
      cursor.afterCalls (m + 1) = ⟨p, []⟩ := by
  obtain ⟨p, hp⟩ := next_of_isEnd h
  refine ⟨p, fun m hm ↦ ?_⟩
  induction m, hm using Nat.le_induction with
  | base => exact ⟨congrArg Prod.fst hp, (afterCalls_succ ..).trans (congrArg Prod.snd hp)⟩
  | succ m _ ih =>
    rw [Cursor.call, afterCalls_succ _ (m + 1), ih.2]
    exact ⟨rfl, rfl⟩

private theorem rest_length_add_le (cursor : Cursor) {n : Nat}
    (h : ∀ m < n, isEnd (cursor.call m) = false) :
    (cursor.afterCalls n).rest.length + n ≤ cursor.rest.length := by
  induction n with
  | zero => exact Nat.le_refl _
  | succ n ih =>
    have hlt := rest_length_lt (h n (Nat.lt_succ_self n))
    have hle := ih fun m hm ↦ h m (Nat.lt_succ_of_lt hm)
    rw [afterCalls_succ]
    omega

private theorem exists_first (p : Nat → Bool) {n : Nat} (h : p n = true) :
    ∃ first ≤ n, (∀ m < first, p m = false) ∧ p first = true :=
  have hex : ∃ n, p n = true := ⟨n, h⟩
  ⟨Nat.find hex, Nat.find_min' hex h, fun _ hm ↦ Bool.not_eq_true _ ▸ Nat.find_min hex hm,
    Nat.find_spec hex⟩

private theorem exists_isEnd (cursor : Cursor) : ∃ last ≤ cursor.rest.length,
    (∀ n < last, isEnd (cursor.call n) = false) ∧ isEnd (cursor.call last) = true := by
  have hex : ∃ n, isEnd (cursor.call n) = true := by
    by_contra hnone
    have hle := rest_length_add_le cursor fun m (_ : m < cursor.rest.length + 1) ↦
      Bool.not_eq_true _ ▸ fun hm ↦ hnone ⟨m, hm⟩
    omega
  obtain ⟨n, hn⟩ := hex
  obtain ⟨last, -, hbefore, hlast⟩ := exists_first (fun n ↦ isEnd (cursor.call n)) hn
  exact ⟨last, Nat.le_of_add_left_le (rest_length_add_le cursor hbefore), hbefore, hlast⟩

/-! ### Places -/

/-- A cursor has moved on in a text, over at least one character, to a place after another. -/
def MovesOn (text : List Char) (cursor cursor' : Cursor) : Prop :=
  ∃ before taken, before ++ taken ++ cursor'.rest = text ∧ taken ≠ [] ∧
    cursor.rest = taken ++ cursor'.rest ∧
    cursor.position = Position.start.after before ∧
    cursor'.position = Position.start.after (before ++ taken)

/-- Moving on leads to a greater offset. -/
theorem MovesOn.offset_lt {text : List Char} {cursor cursor' : Cursor}
    (h : MovesOn text cursor cursor') : cursor.position.offset < cursor'.position.offset := by
  obtain ⟨before, taken, -, hne, -, hplace, hplace'⟩ := h
  rw [hplace', Position.after_append, ← hplace, Position.offset_after]
  refine Nat.lt_add_of_pos_right (Nat.pos_of_ne_zero fun hzero ↦ hne ?_)
  rwa [String.utf8ByteSize_eq_zero_iff, ← String.toList_eq_nil_iff, String.toList_ofList] at hzero

private theorem isRest_afterCalls {text : List Char} (n : Nat) {cursor : Cursor}
    (h : IsRest text cursor.position cursor.rest) :
    IsRest text (cursor.afterCalls n).position (cursor.afterCalls n).rest := by
  induction n generalizing cursor with
  | zero => exact h
  | succ n ih => exact ih (next_places h).rest

private theorem movesOn_of_length_lt {text : List Char} {cursor cursor' : Cursor}
    (h : IsRest text cursor.position cursor.rest) (h' : IsRest text cursor'.position cursor'.rest)
    (hlt : cursor'.rest.length < cursor.rest.length) : MovesOn text cursor cursor' := by
  obtain ⟨before, hbefore, hplace⟩ := h
  obtain ⟨before', hbefore', hplace'⟩ := h'
  have hlength := congrArg List.length (hbefore.trans hbefore'.symm)
  rw [List.length_append, List.length_append] at hlength
  obtain ⟨taken, rfl⟩ : before <+: before' :=
    List.prefix_of_prefix_length_le ⟨_, hbefore⟩ ⟨_, hbefore'⟩ (by omega)
  refine ⟨before, taken, hbefore', ?_, ?_, hplace, hplace'⟩
  · rintro rfl
    simp at hlength
    omega
  · rw [List.append_assoc, ← hbefore] at hbefore'
    exact (List.append_cancel_left hbefore').symm

/-! ### Outcomes in order -/

private theorem map_call_range (cursor : Cursor) (n : Nat) :
    (List.range (n + 1)).map cursor.call =
      cursor.next.1 :: (List.range n).map cursor.next.2.call := by
  rw [List.range_succ_eq_map, List.map_cons, List.map_map]
  rfl

private theorem resumeFrom_eq {last : Nat} : ∀ (cursor : Cursor) (steps : Nat),
    (∀ n < last, isEnd (cursor.call n) = false) → isEnd (cursor.call last) = true → last < steps →
      resumeFrom steps cursor =
        ((List.range (last + 1)).map cursor.call, cursor.afterCalls (last + 1)) := by
  induction last with
  | zero =>
    rintro cursor (_ | steps) - hend hsteps
    · omega
    · obtain ⟨p, hp⟩ := next_of_isEnd (show isEnd cursor.next.1 = true from hend)
      rw [resumeFrom, map_call_range, Cursor.afterCalls, Cursor.afterCalls, hp]
      rfl
  | succ last ih =>
    rintro cursor (_ | steps) hbefore hend hsteps
    · omega
    · have hfirst : isEnd cursor.next.1 = false := hbefore 0 (Nat.succ_pos last)
      have hmore := ih cursor.next.2 steps
        (fun n hn ↦ hbefore (n + 1) (Nat.succ_lt_succ hn)) hend (Nat.lt_of_succ_lt_succ hsteps)
      rw [resumeFrom, map_call_range, Cursor.afterCalls]
      generalize cursor.next = r at hfirst hmore ⊢
      obtain ⟨f | t, after⟩ := r
      · simp only [hmore]
      · have hkind : t.kind ≠ .endOfInput := of_decide_eq_false hfirst
        simp only [if_neg hkind, hmore]

-- The results of scanning up to the end or the first failure are those of the calls up to the first
-- that is final.
private theorem results_scanFrom {final : Nat} : ∀ (cursor : Cursor) (steps : Nat),
    (∀ n < final, isFinal (cursor.call n) = false) → isFinal (cursor.call final) = true →
      final ≤ steps →
      (scanFrom steps cursor).results = (List.range (final + 1)).map cursor.call := by
  induction final with
  | zero =>
    rintro cursor (_ | steps) - hfinal -
    · rfl
    · have hfinal : isFinal cursor.next.1 = true := hfinal
      rw [scanFrom, map_call_range]
      generalize cursor.next = r at hfinal ⊢
      obtain ⟨f | t, after⟩ := r
      · rfl
      · have hkind : t.kind = .endOfInput := of_decide_eq_true hfinal
        simp only [if_pos hkind]
        rfl
  | succ final ih =>
    rintro cursor (_ | steps) hbefore hfinal hsteps
    · omega
    · have hfirst : isFinal cursor.next.1 = false := hbefore 0 (Nat.succ_pos final)
      have hmore := ih cursor.next.2 steps
        (fun n hn ↦ hbefore (n + 1) (Nat.succ_lt_succ hn)) hfinal (Nat.le_of_succ_le_succ hsteps)
      rw [scanFrom, map_call_range]
      generalize cursor.next = r at hfirst hmore ⊢
      obtain ⟨f | t, after⟩ := r
      · cases hfirst
      · have hkind : t.kind ≠ .endOfInput := of_decide_eq_false hfirst
        simp only [if_neg hkind, ← hmore]
        rfl

private theorem Iteration.call_of_done (cursor : Cursor) (n : Nat) :
    (⟨cursor, true⟩ : Iteration).call n = none := by
  induction n with
  | zero => rfl
  | succ n ih => exact ih

private theorem Iteration.call_eq {final : Nat} : ∀ {cursor : Cursor},
    (∀ n < final, isFinal (cursor.call n) = false) → isFinal (cursor.call final) = true →
      ∀ n, (⟨cursor, false⟩ : Iteration).call n =
        if n ≤ final then some (cursor.call n) else none := by
  induction final with
  | zero =>
    rintro cursor - hfinal (_ | n)
    · rfl
    · have hfinal : isFinal cursor.next.1 = true := hfinal
      rw [if_neg (by omega)]
      change (⟨cursor.next.2, isFinal cursor.next.1⟩ : Iteration).call n = none
      rw [hfinal, call_of_done]
  | succ final ih =>
    rintro cursor hbefore hfinal (_ | n)
    · rfl
    · have hfirst : isFinal cursor.next.1 = false := hbefore 0 (Nat.succ_pos final)
      change (⟨cursor.next.2, isFinal cursor.next.1⟩ : Iteration).call n = _
      rw [hfirst, ih (fun n hn ↦ hbefore (n + 1) (Nat.succ_lt_succ hn)) hfinal]
      simp only [Nat.add_le_add_iff_right]
      rfl

/-! ### Texts -/

private theorem isFinal_of_isEnd {outcome : Except Failure Token} (h : isEnd outcome = true) :
    isFinal outcome = true := by
  cases outcome with
  | error f => rfl
  | ok t => exact h

/-- Whatever calls give, each moves on in the text until one gives the end of input, which all later
ones give at the same place. The end of input comes after one call for each character at most. An
iteration gives what the calls give, up to the first failure or the end of input, and then
nothing. -/
theorem calls_progress (text : String) :
    let start := Cursor.ofText text
    (∀ n, isEnd (start.call n) = false →
      MovesOn text.toList (start.afterCalls n) (start.afterCalls (n + 1)) ∧
        (start.afterCalls n).position.offset < (start.afterCalls (n + 1)).position.offset) ∧
    (∃ last ≤ text.length, ∃ p, (∀ n < last, isEnd (start.call n) = false) ∧
      (∀ n ≥ last, start.call n = .ok ⟨.endOfInput, "", "", p⟩) ∧
      resume text = ((List.range (last + 1)).map start.call, start.afterCalls (last + 1))) ∧
    ∃ final ≤ text.length, (∀ n < final, isFinal (start.call n) = false) ∧
      isFinal (start.call final) = true ∧
      (∀ n, (Iteration.ofText text).call n =
        if n ≤ final then some (start.call n) else none) ∧
      (scan text).results = (List.range (final + 1)).map start.call := by
  intro start
  obtain ⟨last, hle, hbefore, hlast⟩ := exists_isEnd start
  obtain ⟨p, hp⟩ := call_of_isEnd hlast
  obtain ⟨final, hfinal, hfinalBefore, hfinalAt⟩ :=
    exists_first (fun n ↦ isFinal (start.call n)) (isFinal_of_isEnd hlast)
  have hlength : start.rest.length = text.length := String.length_toList
  refine ⟨fun n hn ↦ ?_, ⟨last, hlength ▸ hle, p, hbefore, fun n hn ↦ (hp n hn).1, ?_⟩, final,
    hlength ▸ hfinal.trans hle, hfinalBefore, hfinalAt, Iteration.call_eq hfinalBefore hfinalAt, ?_⟩
  · have hrest : IsRest text.toList start.position start.rest := ⟨[], rfl, rfl⟩
    have hlt := rest_length_lt hn
    rw [← afterCalls_succ] at hlt
    have hmoves := movesOn_of_length_lt (isRest_afterCalls n hrest)
      (isRest_afterCalls (n + 1) hrest) hlt
    exact ⟨hmoves, hmoves.offset_lt⟩
  · exact resumeFrom_eq _ _ hbefore hlast (Nat.lt_succ_of_le hle)
  · exact results_scanFrom _ _ hfinalBefore hfinalAt (hfinal.trans hle)

/-- A bad escape and a comment that is not closed are both passed. -/
theorem calls_progress_failing :
    let start := Cursor.ofText "\"\\q@ /*"
    (isEnd (start.call 0) = false ∧ isFinal (start.call 0) = true ∧
      MovesOn "\"\\q@ /*".toList (start.afterCalls 0) (start.afterCalls 1)) ∧
    isEnd (start.call 2) = false ∧
      MovesOn "\"\\q@ /*".toList (start.afterCalls 2) (start.afterCalls 3) := by
  intro start
  have hescape : isEnd (start.call 0) = false := by decide +kernel
  have hcomment : isEnd (start.call 2) = false := by decide +kernel
  obtain ⟨hmoves, -⟩ := calls_progress "\"\\q@ /*"
  exact ⟨⟨hescape, by decide +kernel, (hmoves 0 hescape).1⟩, hcomment, (hmoves 2 hcomment).1⟩

end PolicySchema.Text
