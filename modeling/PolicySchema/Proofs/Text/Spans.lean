import PolicySchema.Proofs.Source
import PolicySchema.Proofs.Text.LockstepRead

/-!
# Where tokens and failures stand

Scanning passes characters one by one and keeps the place where the rest begins. So the stretch of a
token covers its text, and the stretch of a failure covers characters too, whether it is one of
scanning, of the grammar or of a repeated declaration (`marks_of_readUnder_eq_error`).
-/

namespace PolicySchema

/-- A stretch of a text. -/
def Span.IsIn (s : Span) (text : List Char) : Prop := ∃ before part, s.Covers text before part

namespace Text

variable {text : List Char} {p : Position} {cs ds : List Char}

/-! ### The rest of a text -/

/-- The characters are the rest of a text at a place. -/
def IsRest (text : List Char) (p : Position) (cs : List Char) : Prop :=
  ∃ before, before ++ cs = text ∧ p = Position.start.after before

/-- Passing characters leaves the rest after them. -/
theorem IsRest.after (cs : List Char) (h : IsRest text p (cs ++ ds)) :
    IsRest text (p.after cs) ds := by
  obtain ⟨before, rfl, rfl⟩ := h
  exact ⟨before ++ cs, List.append_assoc .., (Position.after_append ..).symm⟩

private theorem IsRest.advance {c : Char} (h : IsRest text p (c :: cs)) :
    IsRest text (p.advance c) cs := h.after [c]

private theorem IsRest.covers (cs : List Char) (h : IsRest text p (cs ++ ds)) :
    ∃ before, (⟨p, (String.ofList cs).utf8ByteSize⟩ : Span).Covers text before cs := by
  obtain ⟨before, rfl, rfl⟩ := h
  exact ⟨before, ⟨ds, List.append_assoc ..⟩, rfl, rfl⟩

private theorem IsRest.isIn (h : IsRest text p (cs ++ ds)) :
    (Span.between p (p.after cs)).IsIn text := by
  obtain ⟨before, rfl, rfl⟩ := h
  rw [← Position.after_append]
  exact ⟨before, cs, Span.covers_between ⟨ds, List.append_assoc ..⟩⟩

/-! ### Scanning -/

/-- Skipping goes on where the rest begins, and it fails at a stretch of the text. -/
theorem skipGap_places (gap : Gap) (p : Position) (cs : List Char) (h : IsRest text p cs)
    (hgap : ∀ opened, gap = .block opened → (⟨opened, 2⟩ : Span).IsIn text) :
    IsRest text (skipGap gap p cs).2.position (skipGap gap p cs).2.rest ∧
      ∀ f, (skipGap gap p cs).1 = .error f → f.span.IsIn text := by
  -- Along the skipping. A block comment that is not closed fails at its two opening characters.
  fun_induction skipGap gap p cs with
  | case1 p cs ih => exact ih h.advance.advance (by rintro _ ⟨⟩)
  | case2 p cs ih =>
    refine ih h.advance.advance ?_
    rintro _ ⟨⟩
    obtain ⟨before, hcovers⟩ := h.covers ['/', '*']
    exact ⟨before, _, hcovers⟩
  | case3 p c cs _ _ _ ih => exact ih h.advance (by rintro _ ⟨⟩)
  | case4 p c cs => exact ⟨h, by rintro _ ⟨⟩⟩
  | case5 p => exact ⟨h, by rintro _ ⟨⟩⟩
  | case6 p c cs ih =>
    refine ih h.advance ?_
    split <;> rintro _ ⟨⟩
  | case7 p => exact ⟨h, by rintro _ ⟨⟩⟩
  | case8 opened p cs ih => exact ih h.advance.advance (by rintro _ ⟨⟩)
  | case9 opened p c cs _ ih => exact ih h.advance hgap
  | case10 opened p =>
    refine ⟨h, ?_⟩
    rintro _ ⟨⟩
    exact hgap opened rfl

private theorem prepend_eq_error {written : List Char} {c : Char}
    {r : Except Failure LiteralText × Cursor} {f : Failure}
    (h : (prepend written c r).1 = .error f) : r.1 = .error f := by
  obtain ⟨_ | l, stop⟩ := r <;> cases h
  rfl

private theorem prepend_eq_written {written : List Char} {c : Char}
    {r : Except Failure LiteralText × Cursor} {l : LiteralText}
    (h : (prepend written c r).1 = .ok l) :
    ∃ l', r.1 = .ok l' ∧ l.written = written ++ l'.written := by
  obtain ⟨_ | l', stop⟩ := r <;> cases h
  exact ⟨l', rfl, rfl⟩

/-- What scanning does from a place on: it goes on where the rest begins, it fails at a stretch of
the text, and a literal is written as the characters that it takes. -/
structure LiteralPlaces (text cs : List Char) (r : Except Failure LiteralText × Cursor) :
    Prop where
  rest : IsRest text r.2.position r.2.rest
  error : ∀ f, r.1 = .error f → f.span.IsIn text
  ok : ∀ l, r.1 = .ok l → cs = l.written ++ r.2.rest

private theorem places_prepend {opened : Position} {w : List Char} (written : List Char)
    {c : Char} {r : Except Failure LiteralText × Cursor}
    (ih : ∀ w', (opened.after w).after written = opened.after w' →
      IsRest text opened (w' ++ cs) → LiteralPlaces text cs r)
    (h : IsRest text opened (w ++ (written ++ cs))) :
    LiteralPlaces text (written ++ cs) (prepend written c r) := by
  rw [← List.append_assoc] at h
  have hr := ih _ (Position.after_append ..).symm h
  refine ⟨hr.rest, fun f hf ↦ hr.error f (prepend_eq_error hf), fun l hl ↦ ?_⟩
  obtain ⟨l', hl', hwritten⟩ := prepend_eq_written hl
  rw [hwritten, hr.ok l' hl', List.append_assoc]
  rfl

private theorem places_badEscape (cs : List Char) (h : IsRest text p (cs ++ ds)) :
    LiteralPlaces text (cs ++ ds) (badEscape p cs ds) where
  rest := h.after cs
  error := by
    rintro f ⟨⟩
    exact h.isIn
  ok := nofun

private theorem places_unterminated {opened : Position} {w : List Char} (cs ds : List Char)
    (h : IsRest text opened (w ++ cs ++ ds)) :
    LiteralPlaces text (cs ++ ds)
      (.error ⟨.unterminatedLiteral, .between opened ((opened.after w).after cs)⟩,
        ⟨(opened.after w).after cs, ds⟩) where
  rest := by
    rw [← Position.after_append]
    exact h.after (w ++ cs)
  error := by
    rintro f ⟨⟩
    rw [← Position.after_append]
    exact h.isIn
  ok := nofun

/-- Scanning a literal goes on where the rest begins, wherever it stops. -/
theorem scanLiteral_places (opened p : Position) (cs : List Char) :
    ∀ w, p = opened.after w → IsRest text opened (w ++ cs) →
      LiteralPlaces text cs (scanLiteral opened p cs) := by
  -- Along the literal, of which `w` was taken already, since an unterminated one fails as a whole.
  fun_induction scanLiteral opened p cs with
  | case1 p =>
    rintro w rfl h
    exact places_unterminated [] [] (by simpa using h)
  | case2 p cs =>
    rintro w rfl h
    refine ⟨(h.after w).advance, by rintro _ ⟨⟩, ?_⟩
    rintro l ⟨⟩
    rfl
  | case3 p stop =>
    rintro w rfl h
    exact places_unterminated ['\\'] [] (by simpa using h)
  | case4 p a b cs m n hb ha ih =>
    rintro w rfl h
    exact places_prepend ['\\', 'x', a, b] ih h
  | case5 p a b cs m hb ha =>
    rintro w rfl h
    exact places_badEscape ['\\', 'x', a] (h.after w)
  | case6 p a b cs ha =>
    rintro w rfl h
    exact places_badEscape ['\\', 'x'] (h.after w)
  | case7 p a ha =>
    rintro w rfl h
    exact places_badEscape ['\\', 'x', a] (h.after w)
  | case8 p a ha =>
    rintro w rfl h
    exact places_badEscape ['\\', 'x'] (h.after w)
  | case9 p cs =>
    rintro w rfl h
    exact places_badEscape ['\\', 'x'] (h.after w)
  | case10 p cs stop =>
    rintro w rfl h
    exact places_unterminated ['\\', '\n'] cs (by simpa using h)
  | case11 p d cs =>
    rename_i ih
    rintro w rfl h
    exact places_prepend ['\\', d] ih h
  | case12 p d cs =>
    rintro w rfl h
    exact places_badEscape ['\\', d] (h.after w)
  | case13 p cs =>
    rintro w rfl h
    exact places_unterminated ['\n'] cs (by simpa using h)
  | case14 p c cs hquote hend _ _ hescape hline ih =>
    rintro w rfl h
    exact places_prepend [c] ih h

/-- A mark stands at the start of the text from which it is split. -/
theorem splitMark?_chars {cs rest : List Char} {m : Mark}
    (h : splitMark? cs = some (m, rest)) : cs = m.chars ++ rest := by
  unfold splitMark? at h
  split at h <;> cases h <;> rfl

/-- Scanning a token goes on where the rest begins, it fails at a stretch of the text, and the token
covers its text. -/
structure TokenPlaces (text : List Char) (r : Except Failure Token × Cursor) : Prop where
  rest : IsRest text r.2.position r.2.rest
  error : ∀ f, r.1 = .error f → f.span.IsIn text
  ok : ∀ t, r.1 = .ok t → ∃ before, t.span.Covers text before t.text.toList

private theorem tokenPlaces_plainToken (kind : TokenKind) (cs : List Char)
    (h : IsRest text p (cs ++ ds)) :
    TokenPlaces text (plainToken kind p cs ds) where
  rest := h.after cs
  error := nofun
  ok := by
    rintro t ⟨⟩
    obtain ⟨before, hcovers⟩ := h.covers cs
    exact ⟨before, by rwa [String.toList_ofList]⟩

private theorem scanToken_places (h : IsRest text p cs) : TokenPlaces text (scanToken p cs) := by
  unfold scanToken
  split
  · exact tokenPlaces_plainToken .endOfInput [] h
  · next cs =>
    have hplaces := scanLiteral_places p (p.advance '"') cs ['"'] rfl h
    generalize scanLiteral p (p.advance '"') cs = r at hplaces
    obtain ⟨outcome, stop⟩ := r
    obtain ⟨hrest, herror, hok⟩ := hplaces
    refine ⟨hrest, ?_, ?_⟩
    · intro f hf
      cases outcome with
      | error g =>
        cases hf
        exact herror _ rfl
      | ok l => cases hf
    · intro t ht
      cases outcome with
      | error g => cases ht
      | ok l =>
        cases ht
        obtain rfl := hok l rfl
        obtain ⟨before, hcovers⟩ := h.covers ('"' :: l.written)
        exact ⟨before, by rwa [String.toList_ofList]⟩
  · next c cs _ =>
    split
    · have hword : c :: cs = (c :: (splitWord cs).1) ++ (splitWord cs).2 := by
        rw [splitWord, List.span_eq_takeWhile_dropWhile, List.cons_append,
          List.takeWhile_append_dropWhile]
      rw [hword] at h
      exact tokenPlaces_plainToken .word _ h
    · split
      · next hmark =>
        rw [splitMark?_chars hmark] at h
        exact tokenPlaces_plainToken _ _ h
      · refine ⟨h.advance, ?_, by rintro _ ⟨⟩⟩
        rintro f ⟨⟩
        obtain ⟨before, hcovers⟩ := h.covers [c]
        refine ⟨before, [c], ?_⟩
        rwa [← String.singleton_eq_ofList, String.utf8ByteSize_singleton] at hcovers

/-- Every call goes on where the rest begins, whether it gives a token or fails. -/
theorem next_places {cursor : Cursor} (h : IsRest text cursor.position cursor.rest) :
    TokenPlaces text cursor.next := by
  have hgap := skipGap_places .between cursor.position cursor.rest h (by rintro _ ⟨⟩)
  unfold Cursor.next
  generalize skipGap .between cursor.position cursor.rest = r at hgap
  obtain ⟨_ | _, stop⟩ := r
  · refine ⟨hgap.1, ?_, by rintro _ ⟨⟩⟩
    rintro f ⟨⟩
    exact hgap.2 _ rfl
  · exact scanToken_places hgap.1

-- Every token covers its text, and a failure is at a stretch of the text.
private structure Scanned.Places (text : List Char) (s : Scanned) : Prop where
  tokens : ∀ t ∈ s.tokens, ∃ before, t.span.Covers text before t.text.toList
  error : ∀ f, s.ending = .error f → f.span.IsIn text
  ok : ∀ t, s.ending = .ok t → ∃ before, t.span.Covers text before t.text.toList

private theorem scanFrom_places (steps : Nat) : ∀ {cursor : Cursor},
    IsRest text cursor.position cursor.rest → (scanFrom steps cursor).Places text := by
  induction steps with
  | zero =>
    intro cursor h
    exact ⟨fun _ ht ↦ absurd ht List.not_mem_nil, (next_places h).error, (next_places h).ok⟩
  | succ steps ih =>
    intro cursor h
    have hnext := next_places h
    rw [scanFrom]
    split
    · next f after hf =>
      rw [hf] at hnext
      exact ⟨fun _ ht ↦ absurd ht List.not_mem_nil, hnext.error, by rintro _ ⟨⟩⟩
    · next t after ht =>
      rw [ht] at hnext
      split
      · exact ⟨fun _ hu ↦ absurd hu List.not_mem_nil, by rintro _ ⟨⟩, hnext.ok⟩
      · have hmore := ih hnext.rest
        refine ⟨?_, hmore.error, hmore.ok⟩
        rintro u hu
        rcases List.mem_cons.mp hu with rfl | hu
        · exact hnext.ok _ rfl
        · exact hmore.tokens u hu

private theorem scan_places (text : String) : (scan text).Places text.toList :=
  scanFrom_places _ ⟨[], rfl, rfl⟩

/-- Every token of a text covers its own text there. -/
theorem covers_of_mem_scan {text : String} {t : Token} (h : t ∈ (scan text).tokens) :
    ∃ before, t.span.Covers text.toList before t.text.toList :=
  (scan_places text).tokens t h

/-! ### Reading -/

private def Likeness.within (text : List Char) : Likeness where
  token t t' := t' = t ∧ t.span.IsIn text
  span s s' := s' = s ∧ s.IsIn text
  kind h := congrArg _ h.1
  value h := congrArg _ h.1
  text h _ := congrArg _ h.1
  place h := ⟨congrArg _ h.1, h.2⟩
  through := by
    rintro a _ b _ ⟨rfl, before, part, ha⟩ ⟨rfl, before', part', hb⟩
    obtain ⟨whole, h⟩ := ha.through hb
    exact ⟨rfl, before, whole, h⟩

private theorem source_of_readUnder_eq_error {exhausted : StackMap} {source : Source} {e : Error}
    (h : readUnder exhausted source = .error e) : e.location.source = source := by
  rw [readUnder] at h
  split at h <;> cases h <;> rfl

/-- Where a source cannot be read, characters of it are marked. -/
theorem marks_of_readUnder_eq_error {exhausted : StackMap} {source : Source} {e : Error}
    (h : readUnder exhausted source = .error e) :
    ∃ before part, e.location.Marks source before part := by
  have hplaces := scan_places source.text
  have hend : (Likeness.within source.text.toList).Alongside
      ⟨(scan source.text).ending, exhausted⟩ ⟨(scan source.text).ending, exhausted⟩ := by
    refine ⟨?_, fun hspan ↦ congrArg exhausted hspan.1⟩
    cases hending : (scan source.text).ending with
    | error f => exact .error ⟨rfl, rfl, hplaces.error f hending⟩
    | ok eof =>
      obtain ⟨before, hcovers⟩ := hplaces.ok eof hending
      exact .ok ⟨rfl, before, _, hcovers⟩
  have hts : List.Forall₂ (Likeness.within source.text.toList).token (scan source.text).tokens
      (scan source.text).tokens := by
    refine List.forall₂_same.mpr fun t ht ↦ ?_
    obtain ⟨before, hcovers⟩ := hplaces.tokens t ht
    exact ⟨rfl, before, _, hcovers⟩
  have hread := Likeness.lockstep_readUnder hend hts
  rw [h] at hread
  cases hread with
  | error he =>
    obtain ⟨before, part, hcovers⟩ := he.2.2
    obtain ⟨cause, ⟨_, span⟩⟩ := e
    obtain rfl := source_of_readUnder_eq_error h
    exact ⟨before, part, hcovers.marks⟩

end Text

end PolicySchema
