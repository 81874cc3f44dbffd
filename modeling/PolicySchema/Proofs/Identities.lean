import PolicySchema.Proofs.NameReading
import PolicySchema.Proofs.Pointer
import PolicySchema.Uid

/-!
# Printed identities

What a message prints of an entity or of a place in a document can be told from the text. The
identity of an entity is scanned back as the path of its type and a literal
(`Uid.exists_scan_text`), and a pointer is read back key by key. So different entities and different
places have different texts (`identities_unambiguous`).
-/

namespace PolicySchema

open Text Syntax Writing

namespace Uid

private def pieces (u : Uid) : List Piece :=
  nameParts u.type ++ [.mark .doubleColon, .literal u.id]

private theorem textOf_pieces (u : Uid) : textOf u.pieces = u.text := by
  rw [pieces, textOf, List.map_append, String.join_append, ← textOf, textOf_nameParts, text,
    String.append_assoc]
  rfl

private theorem scans_pieces (u : Uid) : Scans u.pieces := by
  have hid := Sealed.mark .doubleColon (by decide) (Sealed.literal u.id sealed_nil)
  exact (scans_nameParts u.type).append_scans hid.scans (breaks_mark ..)

/-- The text of an identity is scanned as the path of the type, `::` and a literal for the text. -/
theorem exists_scan_text (u : Uid) : ∃ path, IsPath u.type path ∧ ∃ tokens eof,
    scan u.text = ⟨tokens, .ok eof⟩ ∧
      tokens.map Token.symbol = path ++ [.mark .doubleColon, .literal u.id] := by
  have hscans : ScansAs (charsOf u.pieces ++ []) (symbolsOf u.pieces ++ []) :=
    u.scans_pieces (by simp) scansAs_nil
  rw [List.append_nil, List.append_nil, ← toList_textOf, textOf_pieces] at hscans
  obtain ⟨eof, tokens, hscan, hsymbols⟩ := hscans .start _ (Nat.le_refl _)
  refine ⟨_, isPath_nameParts u.type, tokens, eof, hscan, ?_⟩
  rw [hsymbols, pieces, symbolsOf_append]
  rfl

/-- The text of an identity determines it. -/
theorem text_inj {u v : Uid} (h : u.text = v.text) : u = v := by
  obtain ⟨path, -, tokens, eof, hscan, hsymbols⟩ := u.exists_scan_text
  obtain ⟨path', -, tokens', eof', hscan', hsymbols'⟩ := v.exists_scan_text
  rw [h, hscan'] at hscan
  cases hscan
  rw [hsymbols'] at hsymbols
  obtain ⟨-, hlast⟩ := List.append_inj' hsymbols rfl
  obtain ⟨type, id⟩ := u
  obtain ⟨type', id'⟩ := v
  cases hlast
  rw [text, text, String.append_left_inj, String.append_left_inj] at h
  obtain rfl : type = type' := Name.text_inj h
  rfl

end Uid

/-- Different entities have different texts: the text of an entity is scanned as the path of its
type, `::` and the literal for its own text. So do different places in a document: the text of a
pointer has an empty part before its first slash, and each part after it is read back as a key. -/
theorem identities_unambiguous :
    (∀ u v : Uid, u.text = v.text → u = v) ∧
    (∀ u : Uid, ∃ path, IsPath u.type path ∧ ∃ tokens eof,
      scan u.text = ⟨tokens, .ok eof⟩ ∧
        tokens.map Token.symbol = path ++ [.mark .doubleColon, .literal u.id]) ∧
    (∀ p : Pointer, ∃ rest, Pointer.parts p.text = "" :: rest ∧
      rest.map Pointer.keyOf = p.keys) ∧
    ∀ p q : Pointer, p.text = q.text → p = q :=
  ⟨fun _ _ ↦ Uid.text_inj, Uid.exists_scan_text, Pointer.exists_parts, fun _ _ ↦ Pointer.text_inj⟩

/-- A text with quotes and colons in it, and keys that look like escapes. -/
theorem identities_unambiguous_awkward :
    let app : Identifier := ⟨"App", by decide⟩
    let user : Identifier := ⟨"User", by decide⟩
    let u : Uid := ⟨⟨[app], user⟩, "a\"::b"⟩
    let v : Uid := ⟨.under (some (.bare app)) user, "a\"::b"⟩
    let p : Pointer := ⟨["~1", "", "/~0"]⟩
    let q : Pointer := ((Pointer.root.child "~1").child "").child "/~0"
    (u.text = v.text ∧ u = v) ∧
      (∃ path tokens eof, IsPath u.type path ∧
        scan "App::User::\"a\\\"::b\"" = ⟨tokens, .ok eof⟩ ∧
        tokens.map Token.symbol = path ++ [.mark .doubleColon, .literal "a\"::b"]) ∧
      (p.text = q.text ∧ p = q) ∧
      ∃ rest, Pointer.parts "/~01//~1~00" = "" :: rest ∧ rest.map Pointer.keyOf = p.keys := by
  intro app user u v p q
  obtain ⟨hentities, hscans, hparts, hplaces⟩ := identities_unambiguous
  have huv : u.text = v.text := by decide +kernel
  have hpq : p.text = q.text := by decide +kernel
  have hu : u.text = "App::User::\"a\\\"::b\"" := by decide +kernel
  have hp : p.text = "/~01//~1~00" := by decide +kernel
  obtain ⟨path, hpath, tokens, eof, hscan, hsymbols⟩ := hscans u
  rw [hu] at hscan
  exact ⟨⟨huv, hentities u v huv⟩, ⟨path, tokens, eof, hpath, hscan, hsymbols⟩,
    ⟨hpq, hplaces p q hpq⟩, hp ▸ hparts p⟩

end PolicySchema
