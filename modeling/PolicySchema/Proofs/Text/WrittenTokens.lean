import PolicySchema.Proofs.Text.Scanning
import PolicySchema.Text.Write

/-!
# Scanning what was written

The pieces of a written text scan as their symbols, if no two of them run together (`Apart`). Only a
word and a single colon can run together with what stands after them.
-/

namespace PolicySchema.Text

/-! ### Texts and their symbols -/

/-- The characters scan without a failure to tokens with the given symbols, wherever they begin. -/
def ScansAs (cs : List Char) (us : List Symbol) : Prop :=
  ∀ p steps, cs.length ≤ steps → ∃ eof tokens, scanFrom steps ⟨p, cs⟩ = ⟨tokens, .ok eof⟩ ∧
    tokens.map Token.symbol = us

/-- Nothing scans as nothing. -/
theorem scansAs_nil : ScansAs [] [] := by
  intro p steps _
  refine ⟨⟨.endOfInput, "", "", p⟩, [], ?_, rfl⟩
  cases steps <;> rfl

/-- Scanning depends on a cursor only by what comes next. -/
theorem scanFrom_congr {a b : Cursor} (h : a.next = b.next) (steps : Nat) :
    scanFrom steps a = scanFrom steps b := by
  cases steps with
  | zero => rw [scanFrom, scanFrom, h]
  | succ steps => rw [scanFrom, scanFrom, h]

private theorem not_comment {c : Char} (h : c ≠ '/') (p : Position) (cs : List Char) :
    skipGap .between p (c :: cs) =
      if Unicode.isBlank c then skipGap .between (p.advance c) cs else (.ok (), ⟨p, c :: cs⟩) := by
  rw [skipGap]
  · rintro _ rfl
    exact absurd rfl h
  · rintro _ rfl
    exact absurd rfl h

private theorem slash_ne_blank {c : Char} (h : Unicode.isBlank c = true) : c ≠ '/' := by
  rintro rfl
  exact absurd h (by decide)

/-- A blank is skipped. -/
theorem ScansAs.blank {c : Char} {cs : List Char} {us : List Symbol}
    (h : Unicode.isBlank c = true) (hcs : ScansAs cs us) : ScansAs (c :: cs) us := by
  intro p steps hsteps
  have hnext : Cursor.next ⟨p, c :: cs⟩ = Cursor.next ⟨p.advance c, cs⟩ := by
    rw [Cursor.next, Cursor.next]
    dsimp only
    rw [not_comment (slash_ne_blank h), if_pos h]
  rw [scanFrom_congr hnext]
  exact hcs _ _ (Nat.le_of_succ_le hsteps)

private theorem next_eq_scanToken {c : Char} (hblank : Unicode.isBlank c = false) (hslash : c ≠ '/')
    (p : Position) (cs : List Char) :
    Cursor.next ⟨p, c :: cs⟩ = scanToken p (c :: cs) := by
  rw [Cursor.next]
  dsimp only
  rw [not_comment hslash, hblank, if_neg Bool.false_ne_true]

private theorem ScansAs.token {cs rest : List Char} {s : Symbol} {us : List Symbol}
    (hs : s ≠ .endOfInput)
    (ht : ∀ p, ∃ t q, Cursor.next ⟨p, cs⟩ = (.ok t, ⟨q, rest⟩) ∧ t.symbol = s)
    (hlen : rest.length < cs.length) (hrest : ScansAs rest us) :
    ScansAs cs (s :: us) := by
  intro p steps hsteps
  obtain ⟨t, q, hnext, hts⟩ := ht p
  obtain ⟨steps, rfl⟩ : ∃ n, steps = n + 1 := ⟨steps - 1, by omega⟩
  obtain ⟨eof, tokens, hscan, htokens⟩ := hrest q steps (by omega)
  have hkind : t.kind ≠ .endOfInput := by
    intro hk
    rw [Token.symbol, hk] at hts
    exact hs hts.symm
  refine ⟨eof, t :: tokens, ?_, ?_⟩
  · rw [scanFrom, hnext]
    simp only [if_neg hkind, hscan]
  · rw [List.map_cons, hts, htokens]

/-! ### Words -/

open Unicode in
private theorem ranges_apart :
    ∀ a ∈ alphabeticRanges ++ numericRanges, ∀ b ∈ blankRanges, a.2 < b.1 ∨ b.2 < a.1 := by
  decide +kernel

private theorem toNat_of_isAlphanum {c : Char} (h : c.isAlpha = true ∨ c.isDigit = true) :
    33 ≤ c.toNat ∧ c.toNat < 128 := by
  delta Char.isAlpha Char.isUpper Char.isLower Char.isDigit at h
  simp only [Bool.or_eq_true, Bool.and_eq_true, decide_eq_true_eq, ge_iff_le,
    UInt32.le_iff_toNat_le] at h
  simp at h
  omega

/-- No blank goes on with a word. -/
theorem isBlank_of_isWordContinue {c : Char} (h : isWordContinue c = true) :
    Unicode.isBlank c = false := by
  have hascii (hc : c.isAlpha = true ∨ c.isDigit = true) : Unicode.isBlank c = false := by
    have hc := toNat_of_isAlphanum hc
    rw [← Bool.not_eq_true]
    intro hblank
    obtain ⟨b, hb, hlow, hhigh⟩ := Unicode.Ranges.holds_iff.mp hblank
    simp only [Unicode.blankRanges, List.mem_cons, List.not_mem_nil, or_false] at hb
    rcases hb with rfl | rfl | rfl | rfl | rfl | rfl | rfl | rfl | rfl | rfl <;>
      dsimp only at hlow hhigh <;> omega
  have hbeyond (hc : ∃ a ∈ Unicode.alphabeticRanges ++ Unicode.numericRanges,
      a.1 ≤ c.toNat ∧ c.toNat ≤ a.2) : Unicode.isBlank c = false := by
    obtain ⟨a, ha, hlow', hhigh'⟩ := hc
    rw [← Bool.not_eq_true]
    intro hblank
    obtain ⟨b, hb, hlow, hhigh⟩ := Unicode.Ranges.holds_iff.mp hblank
    have := ranges_apart a ha b hb
    omega
  rw [isWordContinue, Bool.or_eq_true, Bool.or_eq_true, beq_iff_eq] at h
  rcases h with (rfl | h) | h
  · decide
  · rw [Unicode.isAlphabetic] at h
    split at h
    · exact hascii (.inl h)
    · obtain ⟨a, ha, hrange⟩ := Unicode.Ranges.holds_iff.mp h
      exact hbeyond ⟨a, List.mem_append_left _ ha, hrange⟩
  · rw [Unicode.isNumeric] at h
    split at h
    · exact hascii (.inr h)
    · obtain ⟨a, ha, hrange⟩ := Unicode.Ranges.holds_iff.mp h
      exact hbeyond ⟨a, List.mem_append_right _ ha, hrange⟩

private theorem isBlank_of_isWordStart {c : Char} (h : isWordStart c = true) :
    Unicode.isBlank c = false := by
  apply isBlank_of_isWordContinue
  rw [isWordContinue]
  rw [isWordStart] at h
  rw [h, Bool.true_or]

/-- The next token is a word where one stands before what cannot continue it. -/
theorem next_word {w rest : List Char} (hw : isWordChars w = true)
    (hnext : ∀ c ∈ rest.head?, isWordContinue c = false) (p : Position) :
    Cursor.next ⟨p, w ++ rest⟩ = plainToken .word p w rest := by
  cases w with
  | nil => cases hw
  | cons c w =>
    rw [isWordChars, Bool.and_eq_true] at hw
    obtain ⟨hstart, hw⟩ := hw
    have hne {d : Char} (hd : isWordStart d = false) : c ≠ d := by
      rintro rfl
      rw [hstart] at hd
      cases hd
    have hsplit : splitWord (w ++ rest) = (w, rest) := by
      have hw' : ∀ a ∈ w, isWordContinue a = true := List.all_eq_true.mp hw
      rw [splitWord, List.span_eq_takeWhile_dropWhile, List.takeWhile_append_of_pos hw',
        List.dropWhile_append_of_pos hw']
      cases rest with
      | nil => simp
      | cons d rest =>
        have hd : isWordContinue d = false := hnext d rfl
        simp [hd]
    rw [List.cons_append, next_eq_scanToken (isBlank_of_isWordStart hstart) (hne (by decide)),
      scanToken, if_pos hstart]
    · simp only [hsplit]
    · exact hne (by decide)

/-- A word scans as itself before what cannot continue it. -/
theorem ScansAs.word {w rest : List Char} {us : List Symbol} (hw : isWordChars w = true)
    (hnext : ∀ c ∈ rest.head?, isWordContinue c = false) (hrest : ScansAs rest us) :
    ScansAs (w ++ rest) (.word (String.ofList w) :: us) := by
  refine ScansAs.token nofun (fun p ↦ ⟨_, _, next_word hw hnext p, rfl⟩) ?_ hrest
  cases w with
  | nil => cases hw
  | cons c w =>
    rw [List.length_append, List.length_cons]
    omega

/-! ### Marks -/

/-- A mark scans as itself. A single colon may not stand before another one. -/
theorem ScansAs.mark {m : Mark} {rest : List Char} {us : List Symbol}
    (hnext : m = .colon → ∀ c ∈ rest.head?, c ≠ ':') (hrest : ScansAs rest us) :
    ScansAs (m.chars ++ rest) (.mark m :: us) := by
  have single {c : Char} (hm : m.chars = [c]) (hblank : Unicode.isBlank c = false)
      (hslash : c ≠ '/') (hquote : c ≠ '"') (hstart : isWordStart c = false)
      (hsplit : splitMark? (c :: rest) = some (m, rest)) :
      ScansAs (m.chars ++ rest) (.mark m :: us) := by
    rw [hm, List.singleton_append]
    refine ScansAs.token nofun (fun p ↦ ?_) (Nat.lt_succ_self _) hrest
    refine ⟨⟨.mark m, m.text, m.text, p⟩, p.after m.chars, ?_, rfl⟩
    rw [next_eq_scanToken hblank hslash, scanToken,
      if_neg (by rw [hstart]; exact Bool.false_ne_true), hsplit]
    · rfl
    · exact hquote
  cases m with
  | doubleColon =>
    refine ScansAs.token nofun (fun p ↦ ?_) ?_ hrest
    · exact ⟨⟨.mark .doubleColon, "::", "::", p⟩, p.after [':', ':'], rfl, rfl⟩
    · rw [List.length_append]
      exact Nat.lt_add_of_pos_left Nat.two_pos
  | colon =>
    refine single rfl (by decide) (by decide) (by decide) (by decide) ?_
    cases rest with
    | nil => rfl
    | cons c rest =>
      have hc : c ≠ ':' := hnext rfl c rfl
      simp [splitMark?, hc]
  | _ => exact single rfl (by decide) (by decide) (by decide) (by decide) rfl

/-! ### Literals -/

/-- An escape letter is read as what it stands for. -/
theorem scanLiteral_unescape {opened p : Position} {c d : Char} {cs : List Char}
    (h : unescape? d = some c) :
    scanLiteral opened p ('\\' :: d :: cs) =
      prepend ['\\', d] c (scanLiteral opened (p.after ['\\', d]) cs) := by
  have hd : d ≠ 'x' ∧ d ≠ '\n' := by
    constructor <;> rintro rfl <;> simp [unescape?] at h
  rw [scanLiteral]
  · rw [if_neg hd.2, h]
  · exact fun _ _ _ hx ↦ absurd hx hd.1
  · exact fun hx ↦ absurd hx hd.1

private theorem scanLiteral_hex {opened p : Position} {c : Char} {cs : List Char}
    (h : c.toNat < 256) :
    scanLiteral opened p
      (['\\', 'x', Hex.digit (c.toNat / 16), Hex.digit (c.toNat % 16)] ++ cs) =
      prepend ['\\', 'x', Hex.digit (c.toNat / 16), Hex.digit (c.toNat % 16)] c
        (scanLiteral opened
          (p.after ['\\', 'x', Hex.digit (c.toNat / 16), Hex.digit (c.toNat % 16)]) cs) := by
  simp only [List.cons_append, List.nil_append]
  rw [scanLiteral, Hex.value?_digit _ (by omega), Hex.value?_digit _ (by omega)]
  simp only [Nat.div_add_mod, Char.ofNat_toNat]

/-- A character that ends no literal and opens no escape is read as itself. -/
theorem scanLiteral_plain {opened p : Position} {c : Char} {cs : List Char}
    (hquote : c ≠ '"') (hslash : c ≠ '\\') (hline : c ≠ '\n') :
    scanLiteral opened p (c :: cs) = prepend [c] c (scanLiteral opened (p.after [c]) cs) := by
  rw [scanLiteral]
  · rw [if_neg hline]
    rfl
  · exact hquote
  · exact fun h _ ↦ hslash h
  · exact fun _ _ _ h _ ↦ hslash h
  · exact fun _ h _ ↦ hslash h
  · exact fun _ _ h _ ↦ hslash h

private theorem scanLiteral_escape (opened p : Position) (c : Char) (cs : List Char) :
    scanLiteral opened p (Literal.escape c ++ cs) =
      prepend (Literal.escape c) c (scanLiteral opened (p.after (Literal.escape c)) cs) := by
  unfold Literal.escape
  split_ifs with hline hreturn htab hslash hquote hsingle hnull hcontrol
  · exact scanLiteral_unescape (by rw [hline]; rfl)
  · exact scanLiteral_unescape (by rw [hreturn]; rfl)
  · exact scanLiteral_unescape (by rw [htab]; rfl)
  · exact scanLiteral_unescape (by rw [hslash]; rfl)
  · exact scanLiteral_unescape (by rw [hquote]; rfl)
  · exact scanLiteral_unescape (by rw [hsingle]; rfl)
  · exact scanLiteral_unescape (by rw [hnull]; rfl)
  · refine scanLiteral_hex ?_
    simp only [Bool.or_eq_true, Bool.and_eq_true, decide_eq_true_eq] at hcontrol
    omega
  · exact scanLiteral_plain hquote hslash hline

private theorem scanLiteral_quoted (opened : Position) (text rest : List Char) :
    ∀ p, scanLiteral opened p (text.flatMap Literal.escape ++ '"' :: rest) =
      (.ok ⟨text.flatMap Literal.escape ++ ['"'], text⟩,
        ⟨p.after (text.flatMap Literal.escape ++ ['"']), rest⟩) := by
  induction text with
  | nil => exact fun p ↦ rfl
  | cons c text ih =>
    intro p
    rw [List.flatMap_cons, List.append_assoc, List.append_assoc, scanLiteral_escape, ih,
      Position.after_append p (Literal.escape c)]
    rfl

/-- The next token is the literal where one stands, whatever comes after it. -/
theorem next_quoted (text rest : List Char) (p : Position) :
    Cursor.next ⟨p, Literal.quoteChars text ++ rest⟩ =
      (.ok ⟨.literal, String.ofList (Literal.quoteChars text), String.ofList text, p⟩,
        ⟨p.after (Literal.quoteChars text), rest⟩) := by
  rw [Literal.quoteChars, List.append_assoc, List.cons_append, List.singleton_append,
    next_eq_scanToken (by decide) (by decide), scanToken, scanLiteral_quoted]
  rfl

/-- A literal scans as the text that it stands for. -/
theorem ScansAs.literal {rest : List Char} {us : List Symbol} (text : List Char)
    (hrest : ScansAs rest us) :
    ScansAs (Literal.quoteChars text ++ rest) (.literal (String.ofList text) :: us) := by
  refine ScansAs.token nofun (fun p ↦ ⟨_, _, next_quoted text rest p, rfl⟩) ?_ hrest
  simp [Literal.quoteChars]
  omega

/-! ### Pieces -/

/-- The symbol of a piece, if it is no blank. -/
def Piece.symbol? : Piece → Option Symbol
  | blank _ => none
  | word text => some (.word text)
  | literal value => some (.literal value)
  | mark m => some (.mark m)

/-- The symbols of pieces. -/
def symbolsOf (ps : List Piece) : List Symbol := ps.filterMap Piece.symbol?

/-- The characters of pieces. -/
def charsOf (ps : List Piece) : List Char := ps.flatMap fun p ↦ p.text.toList

/-- The pieces scan as their symbols, whatever stands after them. -/
def Sealed (ps : List Piece) : Prop :=
  ∀ ⦃cs us⦄, ScansAs cs us → ScansAs (charsOf ps ++ cs) (symbolsOf ps ++ us)

/-- The pieces scan as their symbols before what cannot go on with a word. -/
def Scans (ps : List Piece) : Prop :=
  ∀ ⦃cs us⦄, (∀ c ∈ cs.head?, isWordContinue c = false) → ScansAs cs us →
    ScansAs (charsOf ps ++ cs) (symbolsOf ps ++ us)

/-- The pieces begin with a character that cannot go on with a word. -/
def Breaks (ps : List Piece) : Prop := ∃ c cs, charsOf ps = c :: cs ∧ isWordContinue c = false

section Pieces

variable {ps qs : List Piece}

/-- No pieces have no symbols. -/
@[simp] theorem symbolsOf_nil : symbolsOf [] = [] := rfl

/-- The symbols of two texts one after the other. -/
@[simp] theorem symbolsOf_append (ps qs : List Piece) :
    symbolsOf (ps ++ qs) = symbolsOf ps ++ symbolsOf qs := List.filterMap_append

/-- A blank has no symbol. -/
@[simp] theorem symbolsOf_blank (text : String) (ps : List Piece) :
    symbolsOf (.blank text :: ps) = symbolsOf ps := rfl

/-- A word is one symbol. -/
@[simp] theorem symbolsOf_word (text : String) (ps : List Piece) :
    symbolsOf (.word text :: ps) = .word text :: symbolsOf ps := rfl

/-- A string literal is one symbol. -/
@[simp] theorem symbolsOf_literal (value : String) (ps : List Piece) :
    symbolsOf (.literal value :: ps) = .literal value :: symbolsOf ps := rfl

/-- A mark is one symbol. -/
@[simp] theorem symbolsOf_mark (m : Mark) (ps : List Piece) :
    symbolsOf (.mark m :: ps) = .mark m :: symbolsOf ps := rfl

private theorem charsOf_append (ps qs : List Piece) :
    charsOf (ps ++ qs) = charsOf ps ++ charsOf qs := List.flatMap_append

/-- The characters of the text of pieces. -/
theorem toList_textOf (ps : List Piece) : (textOf ps).toList = charsOf ps := by
  rw [textOf, String.toList_join, List.flatMap_map]
  rfl

/-- Sealed pieces scan. -/
theorem Sealed.scans (h : Sealed ps) : Scans ps := fun _ _ _ hcs ↦ h hcs

/-- No pieces are sealed. -/
theorem sealed_nil : Sealed [] := fun _ _ h ↦ h

/-- Sealed pieces one after another are sealed. -/
theorem Sealed.append (hp : Sealed ps) (hq : Sealed qs) : Sealed (ps ++ qs) := by
  intro cs us h
  rw [charsOf_append, symbolsOf_append, List.append_assoc, List.append_assoc]
  exact hp (hq h)

/-- Pieces that scan may stand after sealed ones. -/
theorem Sealed.append_scans (hp : Sealed ps) (hq : Scans qs) : Scans (ps ++ qs) := by
  intro cs us hnext h
  rw [charsOf_append, symbolsOf_append, List.append_assoc, List.append_assoc]
  exact hp (hq hnext h)

/-- Sealed pieces that begin with a break seal the pieces before them. -/
theorem Scans.append (hp : Scans ps) (hq : Sealed qs) (hbreak : Breaks qs) :
    Sealed (ps ++ qs) := by
  intro cs us h
  obtain ⟨c, ds, hds, hc⟩ := hbreak
  rw [charsOf_append, symbolsOf_append, List.append_assoc, List.append_assoc]
  refine hp ?_ (hq h)
  rw [hds]
  rintro _ ⟨⟩
  exact hc

/-- Pieces that scan and begin with a break may stand after pieces that scan. -/
theorem Scans.append_scans (hp : Scans ps) (hq : Scans qs) (hbreak : Breaks qs) :
    Scans (ps ++ qs) := by
  intro cs us hnext h
  obtain ⟨c, ds, hds, hc⟩ := hbreak
  rw [charsOf_append, symbolsOf_append, List.append_assoc, List.append_assoc]
  refine hp ?_ (hq hnext h)
  rw [hds]
  rintro _ ⟨⟩
  exact hc

/-! ### Single pieces -/

private theorem charsOf_cons (p : Piece) (ps : List Piece) :
    charsOf (p :: ps) = p.text.toList ++ charsOf ps := List.flatMap_cons

/-- Blanks before sealed pieces are sealed with them. -/
theorem Sealed.blank {text : String} (h : text.toList.all Unicode.isBlank = true)
    (hp : Sealed ps) : Sealed (.blank text :: ps) := by
  have skip (ds : List Char) (hds : ∀ c ∈ ds, Unicode.isBlank c = true) {cs us}
      (hcs : ScansAs cs us) : ScansAs (ds ++ cs) us := by
    induction ds with
    | nil => exact hcs
    | cons d ds ih =>
      exact (ih fun c hc ↦ hds c (List.mem_cons_of_mem _ hc)).blank (hds d List.mem_cons_self)
  intro cs us hcs
  rw [charsOf_cons, List.append_assoc]
  exact skip _ (List.all_eq_true.mp h) (hp hcs)

/-- A literal before sealed pieces is sealed with them. -/
theorem Sealed.literal (value : String) (hp : Sealed ps) : Sealed (.literal value :: ps) := by
  intro cs us hcs
  have h := (hp hcs).literal value.toList
  rw [String.ofList_toList] at h
  rw [charsOf_cons, List.append_assoc]
  simpa [Piece.text, Literal.quote] using h

/-- A mark other than a single colon is sealed with sealed pieces after it. -/
theorem Sealed.mark (m : Mark) (hm : m ≠ .colon) (hp : Sealed ps) : Sealed (.mark m :: ps) := by
  intro cs us hcs
  rw [charsOf_cons, List.append_assoc]
  simpa [Piece.text, Mark.text] using
    ScansAs.mark (m := m) (fun h ↦ absurd h hm) (hp hcs)

/-- A colon and a space are sealed with sealed pieces after them. -/
theorem Sealed.colon (hp : Sealed ps) : Sealed (.mark .colon :: Writing.space :: ps) := by
  intro cs us hcs
  have hspace : ScansAs (charsOf (Writing.space :: ps) ++ cs) (symbolsOf ps ++ us) :=
    hp.blank (by decide) hcs
  rw [charsOf_cons, List.append_assoc, Piece.text, Mark.text, String.toList_ofList]
  refine ScansAs.mark (m := .colon) (fun _ ↦ ?_) hspace
  rintro _ ⟨⟩
  decide

/-- A word scans. -/
theorem scans_word {text : String} (h : isWord text = true) : Scans [.word text] := by
  intro cs us hnext hcs
  have hw := ScansAs.word h hnext hcs
  rw [String.ofList_toList] at hw
  simpa [charsOf, symbolsOf, Piece.text, Piece.symbol?] using hw

/-- A mark is a break. -/
theorem breaks_mark (m : Mark) (ps : List Piece) : Breaks (.mark m :: ps) := by
  rw [Breaks, charsOf_cons]
  cases m <;> exact ⟨_, _, rfl, by decide⟩

/-- A space is a break. -/
theorem breaks_space (ps : List Piece) : Breaks (Writing.space :: ps) := by
  rw [Breaks, charsOf_cons]
  exact ⟨' ', _, rfl, by decide⟩

end Pieces

end PolicySchema.Text
