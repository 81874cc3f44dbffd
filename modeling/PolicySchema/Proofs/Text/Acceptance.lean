import PolicySchema.Text.Read
import PolicySchema.Proofs.Text.Assembly
import PolicySchema.Proofs.Text.Scanning

/-!
# The texts that are read

A text is read exactly if it scans and follows the grammar, and no two of its statements introduce
the same thing. The schema then declares just what the text states.
-/

namespace PolicySchema.Text

open Syntax

variable {source : Source} {exhausted : StackMap} {s : Schema}

/-- A text is read if all its items are read and they assemble. -/
theorem readUnder_eq_ok_iff : readUnder exhausted source = .ok s ↔
    assemble source (itemsOf exhausted (scan source.text)).items = .ok s ∧
      ∃ rest, (itemsOf exhausted (scan source.text)).outcome = .ok rest := by
  rw [readUnder]
  cases assemble source (itemsOf exhausted (scan source.text)).items with
  | error f => simp
  | ok s' =>
    cases (itemsOf exhausted (scan source.text)).outcome with
    | error f => simp
    | ok rest => simp

/-- What is read of a text that is read, and what is left of it. -/
theorem itemsOf_of_readUnder (h : readUnder exhausted source = .ok s) :
    assemble source (itemsOf exhausted (scan source.text)).items = .ok s ∧
      ∃ rest, itemsOf exhausted (scan source.text) =
        ⟨(itemsOf exhausted (scan source.text)).items, .ok rest⟩ := by
  obtain ⟨hasm, rest, hrest⟩ := readUnder_eq_ok_iff.mp h
  exact ⟨hasm, rest, by rw [← hrest]⟩

/-- A text whose items are all read scans and follows the grammar. -/
theorem isDeclarations_of_itemsOf {text : String} {items : List Item} {rest : List Token}
    (h : itemsOf exhausted (scan text) = ⟨items, .ok rest⟩) :
    (∃ eof, (scan text).ending = .ok eof) ∧
      IsDeclarations none (items.map Item.statement) ((scan text).tokens.map Token.symbol) := by
  have hend := scan_ends text exhausted
  obtain ⟨used, left, hu, hrest, hdecl, t, hkind, hpeek⟩ :=
    Grammar.declarations_sound hend _ (scan_spells text) h
  obtain ⟨-, ht⟩ := Reader.peek_shows hend hrest hpeek
  -- Only the end of the text can stop the outermost sequence.
  obtain rfl : left = [] := by
    cases left with
    | nil => rfl
    | cons s left =>
      have hs : s = .endOfInput := ht.kind_endOfInput_iff.mp hkind
      have hnot := endOfInput_not_mem_scan text
      rw [hu, hs] at hnot
      exact absurd (by simp) hnot
  rw [List.append_nil] at hu
  rw [hu]
  refine ⟨?_, hdecl⟩
  cases hrest
  cases he : (scan text).ending with
  | error f =>
    rw [he] at hpeek
    cases hpeek
  | ok eof => exact ⟨eof, rfl⟩

/-- With enough stack, the items of a text that follows the grammar are all read, and they state
what it states. -/
theorem itemsOf_of_isDeclarations {text : String} {eof : Token}
    (heof : (scan text).ending = .ok eof) {ss : List Statement}
    (h : IsDeclarations none ss ((scan text).tokens.map Token.symbol)) :
    ∃ items rest, itemsOf .ample (scan text) = ⟨items, .ok rest⟩ ∧
      items.map Item.statement = ss := by
  have hend := scan_ends text .ample
  have hs := scan_spells text
  rw [heof] at hend
  rw [← List.append_nil ((scan text).tokens.map Token.symbol)] at hs
  obtain ⟨items, rest, hread, hss, -⟩ := Grammar.declarations_complete hend
    ((scan text).tokens.length + 1) (.inl rfl) h hs (fun t ht ↦ ht.kind_endOfInput_iff.mpr rfl)
    (Nat.lt_succ_self _)
  refine ⟨items, rest, ?_, hss⟩
  rw [itemsOf, heof]
  exact hread

/-- A text that follows the grammar with different statements is read as a schema that declares
just what they say. -/
theorem read_of_isDeclarations (source : Source) {eof : Token}
    (heof : (scan source.text).ending = .ok eof) {ss : List Statement}
    (h : IsDeclarations none ss ((scan source.text).tokens.map Token.symbol))
    (hdiff : (ss.map Statement.introduced).Nodup) :
    ∃ s, read source = .ok s ∧ s.Holds ss := by
  obtain ⟨items, rest, hitems, rfl⟩ := itemsOf_of_isDeclarations heof h
  obtain ⟨s, hs⟩ := assemble_isOk_iff.mpr hdiff
  refine ⟨s, readUnder_eq_ok_iff.mpr ?_, holds_of_assemble hs⟩
  rw [hitems]
  exact ⟨hs, rest, rfl⟩

/-- What is read from a text is what the statements say that the grammar derives from it. -/
theorem exists_statements_of_readUnder (h : readUnder exhausted source = .ok s) :
    ∃ ss, IsDeclarations none ss ((scan source.text).tokens.map Token.symbol) ∧ s.Holds ss := by
  obtain ⟨hasm, rest, hitems⟩ := itemsOf_of_readUnder h
  obtain ⟨-, hdecl⟩ := isDeclarations_of_itemsOf hitems
  exact ⟨_, hdecl, holds_of_assemble hasm⟩

/-- A schema is what a text reads as, but for places, exactly if the text scans without a failure to
tokens that the grammar derives as statements, no two of which introduce the same thing, and the
schema declares just what they say. -/
theorem read_iff_derives (source : Source) (s : Schema) :
    (∃ s', read source = .ok s' ∧ s'.agrees s = true) ↔
      ∃ eof ss, (scan source.text).ending = .ok eof ∧
        IsDeclarations none ss ((scan source.text).tokens.map Token.symbol) ∧
        (ss.map Statement.introduced).Nodup ∧ s.Holds ss := by
  constructor
  · rintro ⟨s', hread, hs⟩
    obtain ⟨hasm, rest, hitems⟩ := itemsOf_of_readUnder hread
    obtain ⟨⟨eof, heof⟩, hdecl⟩ := isDeclarations_of_itemsOf hitems
    exact ⟨eof, _, heof, hdecl, assemble_isOk_iff.mp ⟨s', hasm⟩,
      (holds_of_assemble hasm).of_agrees hs⟩
  · rintro ⟨eof, ss, heof, hdecl, hdiff, hs⟩
    obtain ⟨s', hread, hs'⟩ := read_of_isDeclarations source heof hdecl hdiff
    exact ⟨s', hread, hs'.agrees hs⟩

end PolicySchema.Text
