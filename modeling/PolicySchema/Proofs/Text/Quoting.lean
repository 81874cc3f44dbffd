import PolicySchema.Proofs.Text.WrittenTokens
import PolicySchema.Proofs.Text.Words

/-!
# Quoted texts are scanned back

A literal is the next token wherever it stands, and it stands for the text that was quoted. A key is
written bare exactly where its word is scanned back as the key, and a text is a word exactly if it
scans as one.
-/

namespace PolicySchema.Text

/-- Where the text is written before the rest, it is the next token, with the given kind and value.
Scanning goes on at the rest. -/
def IsNextToken (text : String) (kind : TokenKind) (value : String) (rest : List Char) : Prop :=
  ∀ p, Cursor.next ⟨p, text.toList ++ rest⟩ =
    (.ok ⟨kind, text, value, p⟩, ⟨p.after text.toList, rest⟩)

private theorem isNextToken_quote (text : String) (rest : List Char) :
    IsNextToken (Literal.quote text) .literal text rest := by
  intro p
  rw [Literal.quote, String.toList_ofList, next_quoted, String.ofList_toList]

private theorem isNextToken_word {text : String} {rest : List Char} (h : isWord text = true)
    (hrest : ∀ c ∈ rest.head?, isWordContinue c = false) :
    IsNextToken text .word text rest := by
  intro p
  rw [next_word h hrest, plainToken, String.ofList_toList]

-- A key is the next token before what cannot go on with a word. It is a word other than the
-- reserved one if it can stand bare, and a literal if not.
private theorem exists_isNextToken_key (k : String) {rest : List Char}
    (hrest : ∀ c ∈ rest.head?, isWordContinue c = false) :
    ∃ kind, IsNextToken (Writing.key k).text kind k rest ∧
      (isBare k = true ↔ kind = .word ∧ (Writing.key k).text ≠ reservedWord) ∧
      (isBare k = false ↔ kind = .literal) := by
  rw [Writing.key]
  split
  · next hbare =>
    have h := hbare
    rw [isBare, Bool.and_eq_true, bne_iff_ne] at h
    refine ⟨.word, isNextToken_word h.1 hrest, iff_of_true hbare ⟨rfl, h.2⟩, ?_⟩
    simp [hbare]
  · next hbare =>
    refine ⟨.literal, isNextToken_quote k rest, iff_of_false hbare nofun, ?_⟩
    simpa using hbare

private theorem isWord_iff_scan (text : String) :
    isWord text = true ↔ ∃ t eof, scan text = ⟨[t], .ok eof⟩ ∧
      t.kind = .word ∧ t.text = text ∧ eof.kind = .endOfInput := by
  constructor
  · intro hword
    have hscans : ScansAs (text.toList ++ []) [.word (String.ofList text.toList)] :=
      ScansAs.word hword nofun scansAs_nil
    rw [List.append_nil, String.ofList_toList] at hscans
    obtain ⟨eof, tokens, hscan, htokens⟩ := hscans .start _ (Nat.le_refl _)
    obtain ⟨t, rfl, ht⟩ := List.map_eq_singleton_iff.mp htokens
    have hwhole : scan text = ⟨[t], .ok eof⟩ := hscan
    have hmem : t ∈ (scan text).tokens := by
      rw [hwhole]
      exact List.mem_singleton_self t
    have heof : Shows eof .endOfInput := scan_ends text .ample eof (by rw [hwhole])
    have hshows := shows_of_mem_scan hmem
    rw [ht] at hshows
    cases hshows
    exact ⟨_, eof, hwhole, rfl, rfl, heof.kind_endOfInput_iff.mpr rfl⟩
  · rintro ⟨t, eof, hscan, hkind, rfl, -⟩
    exact isWord_of_mem_scan (by rw [hscan]; exact List.mem_singleton_self t) hkind

/-- A quoted text is scanned back as a literal that stands for the text, whatever comes after it,
and a key is scanned back as it is written, before what cannot go on with a word. The words are the
texts that scan as a single word. -/
theorem quoting_scans_back :
    (∀ (text : String) (rest : List Char), IsNextToken (Literal.quote text) .literal text rest) ∧
    (∀ (k : String) (rest : List Char), (∀ c ∈ rest.head?, isWordContinue c = false) →
      ∃ kind, IsNextToken (Writing.key k).text kind k rest ∧
        (isBare k = true ↔ kind = .word ∧ (Writing.key k).text ≠ reservedWord) ∧
        (isBare k = false ↔ kind = .literal)) ∧
    ∀ text : String, isWord text = true ↔ ∃ t eof, scan text = ⟨[t], .ok eof⟩ ∧
      t.kind = .word ∧ t.text = text ∧ eof.kind = .endOfInput :=
  ⟨isNextToken_quote, fun k _ ↦ exists_isNextToken_key k, isWord_iff_scan⟩

/-- The reserved word is a word that is quoted as a key. -/
theorem quoting_scans_back_reserved :
    (∀ c ∈ [':'].head?, isWordContinue c = false) ∧
      IsNextToken "\"in\"" .literal "in" [':'] ∧
      ∃ t eof, scan reservedWord = ⟨[t], .ok eof⟩ ∧ t.kind = .word := by
  obtain ⟨-, hkeys, hwords⟩ := quoting_scans_back
  have hrest : ∀ c ∈ [':'].head?, isWordContinue c = false := by
    rintro _ ⟨⟩
    decide
  refine ⟨hrest, ?_, ?_⟩
  · obtain ⟨kind, hnext, -, hliteral⟩ := hkeys reservedWord [':'] hrest
    obtain rfl := hliteral.mp (by decide)
    exact hnext
  · obtain ⟨t, eof, hscan, hkind, -, -⟩ := (hwords reservedWord).mp (by decide)
    exact ⟨t, eof, hscan, hkind⟩

end PolicySchema.Text
