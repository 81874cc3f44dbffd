import Mathlib.Data.List.TakeDrop
import PolicySchema.Proofs.Related
import PolicySchema.Proofs.Text.Recognition

/-!
# What scanning yields

The tokens of a scanned text show symbols other than the end of input, and a text that scans
without a failure ends with the end of input. Each token takes a character, so the steps suffice.
-/

namespace PolicySchema.Text

/-! ### Progress -/

/-- A gap is skipped without adding characters. -/
theorem skipGap_length_le (gap : Gap) (p : Position) (cs : List Char) :
    (skipGap gap p cs).2.rest.length ≤ cs.length := by
  fun_induction skipGap gap p cs <;> simp_all <;> omega

private theorem scanLiteral_length_le (opened p : Position) (cs : List Char) :
    (scanLiteral opened p cs).2.rest.length ≤ cs.length := by
  fun_induction scanLiteral opened p cs <;> simp_all [prepend, badEscape] <;> omega

private theorem splitMark?_length_lt {cs rest : List Char} {m : Mark}
    (h : splitMark? cs = some (m, rest)) : rest.length < cs.length := by
  unfold splitMark? at h
  split at h <;> cases h <;> simp only [List.length_cons] <;> omega

private theorem scanToken_nil_kind {p : Position} {t : Token} (h : (scanToken p []).1 = .ok t) :
    t.kind = .endOfInput := by
  cases h
  rfl

/-- Scanning a token takes a character, if there is one. -/
theorem scanToken_length_lt (p : Position) {cs : List Char} (h : cs ≠ []) :
    (scanToken p cs).2.rest.length < cs.length := by
  unfold scanToken
  split
  · exact absurd rfl h
  · next cs =>
    exact Nat.lt_succ_of_le (scanLiteral_length_le _ _ _)
  · next c cs _ =>
    split
    · rw [splitWord, List.span_eq_takeWhile_dropWhile]
      exact Nat.lt_succ_of_le (List.dropWhile_sublist _).length_le
    · split
      · next hm => exact splitMark?_length_lt hm
      · simp

/-- A token before the end takes a character. -/
theorem next_length_lt {cursor : Cursor} {t : Token} (h : cursor.next.1 = .ok t)
    (ht : t.kind ≠ .endOfInput) : cursor.next.2.rest.length < cursor.rest.length := by
  have hgap := skipGap_length_le .between cursor.position cursor.rest
  unfold Cursor.next at h ⊢
  split
  · next he =>
    rw [he] at h
    cases h
  · next stop hstop =>
    rw [hstop] at h hgap
    have hne : stop.rest ≠ [] := by
      intro hnil
      dsimp only at h
      rw [hnil] at h
      exact ht (scanToken_nil_kind h)
    exact Nat.lt_of_lt_of_le (scanToken_length_lt _ hne) hgap

/-! ### What tokens show -/

private theorem scanToken_shows {p : Position} {cs : List Char} {t : Token}
    (h : (scanToken p cs).1 = .ok t) : Shows t t.symbol := by
  unfold scanToken at h
  split at h
  · cases h
    exact .endOfInput ..
  · next cs =>
    dsimp only at h
    cases hl : (scanLiteral p (p.advance '"') cs).1 with
    | error e =>
      rw [hl] at h
      cases h
    | ok l =>
      rw [hl] at h
      cases h
      exact .literal ..
  · next c cs _ =>
    split at h
    · cases h
      exact .word ..
    · split at h
      · cases h
        exact .mark ..
      · cases h

/-- A token is the end of input exactly where nothing is left. -/
theorem scanToken_endOfInput_iff {p : Position} {cs : List Char} {t : Token}
    (h : (scanToken p cs).1 = .ok t) : t.kind = .endOfInput ↔ cs = [] := by
  constructor
  · intro hkind
    unfold scanToken at h
    split at h
    · rfl
    · next cs =>
      dsimp only at h
      cases hl : (scanLiteral p (p.advance '"') cs).1 with
      | error e =>
        rw [hl] at h
        cases h
      | ok l =>
        rw [hl] at h
        cases h
        cases hkind
    · split at h
      · cases h
        cases hkind
      · split at h
        · cases h
          cases hkind
        · cases h
  · rintro rfl
    exact scanToken_nil_kind h

private theorem scanFrom_ending_value (steps : Nat) {cursor : Cursor} {t : Token}
    (h : (scanFrom steps cursor).ending = .ok t) (hkind : t.kind = .endOfInput) :
    t.value = "" := by
  have hnext {cursor : Cursor} (h : cursor.next.1 = .ok t) : t.value = "" := by
    unfold Cursor.next at h
    split at h
    · cases h
    · next stop _ =>
      have hnil := (scanToken_endOfInput_iff h).mp hkind
      rw [hnil] at h
      cases h
      rfl
  induction steps generalizing cursor with
  | zero => exact hnext h
  | succ steps ih =>
    rw [scanFrom] at h
    split at h
    · cases h
    · next u after hu =>
      split at h
      · cases h
        exact hnext (congrArg Prod.fst hu)
      · exact ih h

private theorem next_shows {cursor : Cursor} {t : Token} (h : cursor.next.1 = .ok t) :
    Shows t t.symbol := by
  unfold Cursor.next at h
  split at h
  · cases h
  · exact scanToken_shows h

private theorem shows_endOfInput {t : Token} (h : Shows t t.symbol) (ht : t.kind = .endOfInput) :
    Shows t .endOfInput := by
  rw [← h.kind_endOfInput_iff.mp ht]
  exact h

private theorem scanFrom_spells (steps : Nat) : ∀ cursor : Cursor,
    Spells (scanFrom steps cursor).tokens ((scanFrom steps cursor).tokens.map Token.symbol) ∧
      .endOfInput ∉ (scanFrom steps cursor).tokens.map Token.symbol := by
  induction steps with
  | zero => exact fun _ ↦ ⟨.nil, List.not_mem_nil⟩
  | succ steps ih =>
    intro cursor
    rw [scanFrom]
    split
    · exact ⟨.nil, List.not_mem_nil⟩
    · next t after hnext =>
      have ht : Shows t t.symbol := next_shows (congrArg Prod.fst hnext)
      split
      · exact ⟨.nil, List.not_mem_nil⟩
      · next hkind =>
        refine ⟨.cons ht (ih after).1, ?_⟩
        rw [List.map_cons, List.mem_cons, not_or]
        exact ⟨fun h ↦ hkind (ht.kind_endOfInput_iff.mpr h.symm), (ih after).2⟩

private theorem scanFrom_ends (exhausted : StackMap) (steps : Nat) :
    ∀ {cursor : Cursor}, cursor.rest.length ≤ steps →
      Ends ⟨(scanFrom steps cursor).ending, exhausted⟩ := by
  induction steps with
  | zero =>
    intro cursor hlen t ht
    refine shows_endOfInput (next_shows ht) ?_
    by_contra hkind
    have := next_length_lt ht hkind
    omega
  | succ steps ih =>
    intro cursor hlen
    rw [scanFrom]
    split
    · nofun
    · next t after hnext =>
      have ht := congrArg Prod.fst hnext
      split
      · next hkind =>
        rintro _ ⟨⟩
        exact shows_endOfInput (next_shows ht) hkind
      · next hkind =>
        have hlt := next_length_lt ht hkind
        rw [hnext] at hlt
        exact ih (Nat.le_of_lt_succ (Nat.lt_of_lt_of_le hlt hlen))

/-- The tokens of a text show their symbols. -/
theorem scan_spells (text : String) :
    Spells (scan text).tokens ((scan text).tokens.map Token.symbol) :=
  (scanFrom_spells _ _).1

/-- No token of a text before its end is the end of input. -/
theorem endOfInput_not_mem_scan (text : String) :
    .endOfInput ∉ (scan text).tokens.map Token.symbol :=
  (scanFrom_spells _ _).2

/-- A text that scans without a failure ends with the end of input. -/
theorem scan_ends (text : String) (exhausted : StackMap) :
    Ends ⟨(scan text).ending, exhausted⟩ :=
  scanFrom_ends exhausted _ (Nat.le_refl _)

/-- The end of input stands for nothing. -/
theorem value_of_ending {text : String} {eof : Token} (h : (scan text).ending = .ok eof) :
    eof.value = "" :=
  scanFrom_ending_value _ h ((scan_ends text .ample eof h).kind_endOfInput_iff.mpr rfl)

/-- The tokens of a text show their symbols. -/
theorem shows_of_mem_scan {text : String} {t : Token} (h : t ∈ (scan text).tokens) :
    Shows t t.symbol := by
  obtain ⟨s, -, hs⟩ := exists_right_of_forall₂ (scan_spells text) h
  rwa [hs.symbol_eq]

end PolicySchema.Text
