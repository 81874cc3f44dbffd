import PolicySchema.Proofs.Document.Members
import PolicySchema.Proofs.Text.Words
import PolicySchema.Proofs.Text.WrittenTypes

/-!
# How names are read

A text is read as a name exactly if it scans as the components of the name with `::` between them
and nothing is skipped (`parse_eq_ok_iff_scansWhole`). Each name has one text, so different keys of
the JSON form stand for different namespaces and types.
-/

namespace PolicySchema

namespace Text

open Syntax Writing

/-! ### Scanning names -/

/-- The text is scanned as symbols, and nothing is skipped before, between or after their tokens. -/
def ScansWhole (text : String) (us : List Symbol) : Prop :=
  ∃ tokens eof, scan text = ⟨tokens, .ok eof⟩ ∧ tokens.map Token.symbol = us ∧
    String.join (tokens.map Token.text) = text

private theorem textOf_path (id : Identifier) (ids : List Identifier) :
    textOf (((id :: ids).map fun id ↦ Piece.word id.text).intersperse (.mark .doubleColon)) =
      Name.separator.intercalate ((id :: ids).map Identifier.text) := by
  rw [← String.toList_inj, toList_textOf, String.toList_intercalate]
  induction ids generalizing id with
  | nil => simp [charsOf, Piece.text]
  | cons next ids ih =>
    have h := ih next
    simp [charsOf, List.intercalate, Piece.text, Mark.text, Mark.chars, Name.separator] at h ⊢
    exact h

/-- The pieces of a name make up its text. -/
theorem textOf_nameParts (n : Name) : textOf (nameParts n) = n.text := by
  rw [nameParts, Name.text]
  cases hn : n.components with
  | nil => simp [Name.components] at hn
  | cons id ids => exact textOf_path id ids

private theorem mem_of_mem_intersperse {α : Type} {sep a : α} {as : List α}
    (h : a ∈ as.intersperse sep) : a = sep ∨ a ∈ as := by
  fun_induction List.intersperse sep as with
  | case1 => cases h
  | case2 => exact .inr h
  | case3 b c as ih =>
    rcases List.mem_cons.mp h with rfl | h
    · exact .inr List.mem_cons_self
    · rcases List.mem_cons.mp h with rfl | h
      · exact .inl rfl
      · exact (ih h).imp_right (List.mem_cons_of_mem _)

private theorem word_or_mark {n : Name} {p : Piece} (h : p ∈ nameParts n) :
    (∃ w, p = .word w) ∨ ∃ m, p = .mark m := by
  rcases mem_of_mem_intersperse h with rfl | h
  · exact .inr ⟨_, rfl⟩
  · obtain ⟨id, -, rfl⟩ := List.mem_map.mp h
    exact .inl ⟨_, rfl⟩

private theorem isPath_iff_eq_symbolsOf {n : Name} {us : List Symbol} :
    IsPath n us ↔ us = symbolsOf (nameParts n) := by
  constructor
  · intro h
    obtain ⟨id, ids, hn, rfl⟩ := Grammar.isPath_iff.mp h
    obtain ⟨id', ids', hn', heq⟩ := Grammar.isPath_iff.mp (isPath_nameParts n)
    rw [hn] at hn'
    cases hn'
    exact heq.symm
  · rintro rfl
    exact isPath_nameParts n

private theorem texts_of_symbols {text : String} {ts : List Token} {ps : List Piece}
    (hts : ∀ t ∈ ts, t ∈ (scan text).tokens)
    (hps : ∀ p ∈ ps, (∃ w, p = .word w) ∨ ∃ m, p = .mark m)
    (h : ts.map Token.symbol = symbolsOf ps) : ts.map Token.text = ps.map Piece.text := by
  induction ps generalizing ts with
  | nil =>
    rw [symbolsOf_nil, List.map_eq_nil_iff] at h
    rw [h]
    rfl
  | cons p ps ih =>
    rw [List.forall_mem_cons] at hps
    have hcons {s : Symbol} (hs : symbolsOf (p :: ps) = s :: symbolsOf ps)
        (htext : ∀ t ∈ (scan text).tokens, t.symbol = s → t.text = p.text) :
        ts.map Token.text = (p :: ps).map Piece.text := by
      rw [hs] at h
      obtain ⟨t, ts', rfl, ht, hrest⟩ := List.map_eq_cons_iff.mp h
      rw [List.forall_mem_cons] at hts
      rw [List.map_cons, List.map_cons, htext t hts.1 ht, ih hts.2 hps.2 hrest]
    obtain ⟨w, rfl⟩ | ⟨m, rfl⟩ := hps.1
    · refine hcons rfl fun t ht hsymbol ↦ ?_
      have hshows := shows_of_mem_scan ht
      rw [hsymbol] at hshows
      cases hshows
      rfl
    · refine hcons rfl fun t ht hsymbol ↦ text_of_mem_scan ht ?_
      exact (shows_of_mem_scan ht).kind_mark_iff.mpr hsymbol

-- A text scans as the pieces of a name, with nothing skipped, exactly if it is the text of the
-- name.
private theorem scansWhole_iff {n : Name} {text : String} :
    ScansWhole text (symbolsOf (nameParts n)) ↔ n.text = text := by
  have hjoin {text : String} {eof : Token} {tokens : List Token}
      (hscan : scan text = ⟨tokens, .ok eof⟩)
      (hsymbols : tokens.map Token.symbol = symbolsOf (nameParts n)) :
      String.join (tokens.map Token.text) = n.text := by
    have htokens : tokens = (scan text).tokens := by rw [hscan]
    rw [texts_of_symbols (fun t ht ↦ htokens ▸ ht) (fun _ ↦ word_or_mark) hsymbols,
      ← textOf_nameParts, textOf]
  constructor
  · rintro ⟨tokens, eof, hscan, hsymbols, rfl⟩
    exact (hjoin hscan hsymbols).symm
  · rintro rfl
    have hscans : ScansAs (charsOf (nameParts n) ++ []) (symbolsOf (nameParts n) ++ []) :=
      scans_nameParts n (by simp) scansAs_nil
    rw [List.append_nil, List.append_nil, ← toList_textOf, textOf_nameParts] at hscans
    obtain ⟨eof, tokens, hscan, hsymbols⟩ := hscans .start _ (Nat.le_refl _)
    exact ⟨tokens, eof, hscan, hsymbols, hjoin hscan hsymbols⟩

private theorem parse_eq_ok_iff_scansWhole {text : String} {n : Name} :
    Name.parse text = .ok n ↔ ∃ us, IsPath n us ∧ ScansWhole text us := by
  rw [Name.parse_eq_ok_iff, ← scansWhole_iff]
  simp only [isPath_iff_eq_symbolsOf, exists_eq_left]

end Text

namespace Document

/-! ### Keys of the JSON form -/

variable {α κ β : Type}

/-- What is read under the key is the entry for the given thing. -/
def KeyStandsFor (read : Pointer → String → α → Except Error (κ × β)) (key : String) (k : κ) :
    Prop :=
  ∃ path a b, read path key a = .ok (k, b)

/-- What is read under the second key, in the namespace under the first, has the given full name. -/
def KeysStandFor (read : Pointer → String → α → Except Error (Identifier × β))
    (nsKey key : String) (n : Name) : Prop :=
  ∃ ns id, KeyStandsFor entryAt nsKey ns ∧ KeyStandsFor read key id ∧ Name.under ns id = n

variable {nsKey nsKey' key key' : String} {ns : Option Name} {id : Identifier} {n : Name}

private theorem eq_of_keyStandsFor_entryAt (h : KeyStandsFor entryAt key ns) :
    key = (ns.map Name.text).getD "" := by
  obtain ⟨path, o, body, h⟩ := h
  obtain ⟨ns, hns, h⟩ := Except.bind_eq_ok_iff.mp h
  obtain ⟨body, -, ⟨⟩⟩ := Except.bind_eq_ok_iff.mp h
  unfold namespaceNameAt at hns
  split at hns
  · next hempty =>
    cases hns
    exact String.isEmpty_iff.mp hempty
  · obtain ⟨n, hn, rfl⟩ := Except.map_eq_ok_iff.mp hns
    exact (text_of_nameAt hn).symm

private theorem eq_of_keyStandsFor_entityTypeAt (h : KeyStandsFor entityTypeAt key id) :
    key = id.text := by
  obtain ⟨path, o, d, h⟩ := h
  obtain ⟨id, hid, h⟩ := Except.bind_eq_ok_iff.mp h
  obtain ⟨notes, -, h⟩ := Except.bind_eq_ok_iff.mp h
  obtain ⟨body, -, ⟨⟩⟩ := Except.bind_eq_ok_iff.mp h
  exact (text_of_identifierAt hid).symm

private theorem eq_of_keyStandsFor_commonTypeAt (h : KeyStandsFor commonTypeAt key id) :
    key = id.text := by
  obtain ⟨path, o, d, h⟩ := h
  obtain ⟨id, hid, h⟩ := Except.bind_eq_ok_iff.mp h
  obtain ⟨notes, -, h⟩ := Except.bind_eq_ok_iff.mp h
  obtain ⟨type, -, ⟨⟩⟩ := Except.bind_eq_ok_iff.mp h
  exact (text_of_identifierAt hid).symm

private theorem eq_of_keysStandFor {read : Pointer → String → α → Except Error (Identifier × β)}
    (hread : ∀ {key id}, KeyStandsFor read key id → key = id.text)
    (h : KeysStandFor read nsKey key n) (h' : KeysStandFor read nsKey' key' n) :
    nsKey = nsKey' ∧ key = key' := by
  obtain ⟨ns, id, hns, hid, rfl⟩ := h
  obtain ⟨ns', id', hns', hid', hsame⟩ := h'
  obtain ⟨rfl, rfl⟩ := Name.under_inj.mp hsame
  rw [eq_of_keyStandsFor_entryAt hns, eq_of_keyStandsFor_entryAt hns', hread hid, hread hid']
  exact ⟨rfl, rfl⟩

end Document

open Text Document

/-- Names and their texts determine each other: the text of a name is read as the name, and a text
that is read as a name is the text of the name. The texts of names are those that scan as words
other than the reserved one with `::` between them, without anything that is skipped. So different
keys of the JSON form stand for different namespaces, entity types and common types. -/
theorem Name.parse_inverts_text :
    (∀ n : Name, Name.parse n.text = .ok n) ∧
    (∀ (text : String) (n : Name), Name.parse text = .ok n →
      n.text = text ∧ ∀ id ∈ n.components, PolicySchema.isBare id.text = true) ∧
    (∀ (text : String) (n : Name), Name.parse text = .ok n ↔
      ∃ us, Syntax.IsPath n us ∧ ScansWhole text us) ∧
    (∀ (key key' : String) (ns : Option Name),
      KeyStandsFor entryAt key ns → KeyStandsFor entryAt key' ns → key = key') ∧
    (∀ (nsKey key nsKey' key' : String) (n : Name), KeysStandFor entityTypeAt nsKey key n →
      KeysStandFor entityTypeAt nsKey' key' n → nsKey = nsKey' ∧ key = key') ∧
    ∀ (nsKey key nsKey' key' : String) (n : Name), KeysStandFor commonTypeAt nsKey key n →
      KeysStandFor commonTypeAt nsKey' key' n → nsKey = nsKey' ∧ key = key' := by
  refine ⟨Name.parse_text, fun text n h ↦ ?_, fun _ _ ↦ parse_eq_ok_iff_scansWhole, ?_, ?_, ?_⟩
  · exact ⟨Name.parse_eq_ok_iff.mp h, fun id _ ↦ id.bare⟩
  · intro key key' ns h h'
    rw [eq_of_keyStandsFor_entryAt h, eq_of_keyStandsFor_entryAt h']
  · exact fun _ _ _ _ _ ↦ eq_of_keysStandFor eq_of_keyStandsFor_entityTypeAt
  · exact fun _ _ _ _ _ ↦ eq_of_keysStandFor eq_of_keyStandsFor_commonTypeAt

/-- An entity type of a namespace whose name is beyond ASCII. -/
theorem Name.parse_inverts_text_accented :
    let n : Name := ⟨[⟨"É", by decide +kernel⟩], ⟨"B", by decide⟩⟩
    Name.parse "É::B" = .ok n ∧ (∃ us, Syntax.IsPath n us ∧ ScansWhole "É::B" us) ∧
      KeysStandFor entityTypeAt "É" "B" n ∧
      ∀ nsKey key, KeysStandFor entityTypeAt nsKey key n → nsKey = "É" ∧ key = "B" := by
  intro n
  obtain ⟨htext, -, hscans, -, hkeys, -⟩ := Name.parse_inverts_text
  have hparse : Name.parse "É::B" = .ok n := htext n
  have hns : KeyStandsFor entryAt "É" (some (.bare ⟨"É", by decide +kernel⟩)) :=
    ⟨.root, ⟨[], [], [], []⟩, _, rfl⟩
  have hid : KeyStandsFor entityTypeAt "B" ⟨"B", by decide⟩ :=
    ⟨.root, ⟨none, none, none, none, []⟩, _, rfl⟩
  have hstands : KeysStandFor entityTypeAt "É" "B" n := ⟨_, _, hns, hid, rfl⟩
  exact ⟨hparse, (hscans _ n).mp hparse, hstands, fun _ _ h ↦ hkeys _ _ _ _ n h hstands⟩

end PolicySchema
