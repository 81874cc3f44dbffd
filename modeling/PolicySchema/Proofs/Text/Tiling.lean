import PolicySchema.Proofs.Text.Spans

/-!
# Tokens tile a text

A text that scans without a failure is cut into tokens with gaps before them. Each token takes the
characters that it is written with, the gaps are made of blanks and comments, and nothing is left
when the end of input is reached (`scan_tiles`).
-/

namespace PolicySchema.Text

/-! ### Gaps -/

/-- Blanks and comments before the rest of a text. A comment to the end of a line takes the line
feed, and only at the end of the text there may be none. A block comment is closed by the first
`*/` after its opening. -/
inductive IsGap (rest : List Char) : List Char → Prop where
  | nil : IsGap rest []
  | blank {c : Char} {gap : List Char} (hblank : Unicode.isBlank c = true)
      (hgap : IsGap rest gap) : IsGap rest (c :: gap)
  | line {body gap : List Char} (hbody : '\n' ∉ body) (hgap : IsGap rest gap) :
      IsGap rest ('/' :: '/' :: (body ++ '\n' :: gap))
  | lastLine {body : List Char} (hbody : '\n' ∉ body) (hrest : rest = []) :
      IsGap rest ('/' :: '/' :: body)
  | block {body gap : List Char} (hbody : ¬ ['*', '/'] <:+: body) (hgap : IsGap rest gap) :
      IsGap rest ('/' :: '*' :: (body ++ '*' :: '/' :: gap))

private def Gap.Finishes (rest : List Char) : Gap → List Char → Prop
  | .between, cs => IsGap rest cs
  | .line, cs => (∃ body gap, cs = body ++ '\n' :: gap ∧ '\n' ∉ body ∧ IsGap rest gap) ∨
      ('\n' ∉ cs ∧ rest = [])
  | .block _, cs =>
    ∃ body gap, cs = body ++ '*' :: '/' :: gap ∧ ¬ ['*', '/'] <:+: body ∧ IsGap rest gap

private theorem not_closed_cons {c : Char} {body : List Char} (more : List Char)
    (hbody : ¬ ['*', '/'] <:+: body)
    (hclose : ∀ ds, c = '*' → body ++ more = '/' :: ds → False) :
    ¬ ['*', '/'] <:+: c :: body := by
  rw [List.infix_cons_iff, not_or]
  refine ⟨fun hprefix ↦ ?_, hbody⟩
  obtain ⟨hc, hslash⟩ := List.cons_prefix_cons.mp hprefix
  cases body with
  | nil => simp at hslash
  | cons d body =>
    obtain ⟨rfl, -⟩ := List.cons_prefix_cons.mp hslash
    exact hclose _ hc.symm rfl

private theorem finishes_of_skipGap (g : Gap) (p : Position) (cs : List Char) :
    ∀ {stop : Cursor}, skipGap g p cs = (.ok (), stop) →
      ∃ taken, taken ++ stop.rest = cs ∧ g.Finishes stop.rest taken := by
  fun_induction skipGap g p cs with
  | case1 p cs ih =>
    intro stop h
    obtain ⟨taken, rfl, ⟨body, gap, rfl, hbody, hgap⟩ | ⟨hbody, hrest⟩⟩ := ih h
    · exact ⟨_, rfl, .line hbody hgap⟩
    · exact ⟨_, rfl, .lastLine hbody hrest⟩
  | case2 p cs ih =>
    intro stop h
    obtain ⟨taken, rfl, body, gap, rfl, hbody, hgap⟩ := ih h
    exact ⟨_, rfl, .block hbody hgap⟩
  | case3 p c cs _ _ hblank ih =>
    intro stop h
    obtain ⟨taken, rfl, hgap⟩ := ih h
    exact ⟨c :: taken, rfl, .blank hblank hgap⟩
  | case4 p c cs =>
    intro stop h
    cases h
    exact ⟨[], rfl, .nil⟩
  | case5 p =>
    intro stop h
    cases h
    exact ⟨[], rfl, .nil⟩
  | case6 p c cs ih =>
    intro stop h
    obtain ⟨taken, rfl, hfinish⟩ := ih h
    refine ⟨c :: taken, rfl, ?_⟩
    split at hfinish
    · next hc =>
      subst hc
      exact .inl ⟨[], taken, rfl, List.not_mem_nil, hfinish⟩
    · next hc =>
      rcases hfinish with ⟨body, gap, rfl, hbody, hgap⟩ | ⟨hbody, hrest⟩
      · exact .inl ⟨c :: body, gap, rfl, by simp [Ne.symm hc, hbody], hgap⟩
      · exact .inr ⟨by simp [Ne.symm hc, hbody], hrest⟩
  | case7 p =>
    intro stop h
    cases h
    exact ⟨[], rfl, .inr ⟨List.not_mem_nil, rfl⟩⟩
  | case8 opened p cs ih =>
    intro stop h
    obtain ⟨taken, rfl, hgap⟩ := ih h
    exact ⟨_, rfl, [], taken, rfl, by simp, hgap⟩
  | case9 opened p c cs hclose ih =>
    intro stop h
    obtain ⟨taken, rfl, body, gap, rfl, hbody, hgap⟩ := ih h
    rw [List.append_assoc] at hclose
    exact ⟨_, rfl, c :: body, gap, rfl, not_closed_cons _ hbody hclose, hgap⟩
  | case10 opened p =>
    intro stop h
    cases h

/-! ### Tokens -/

/-- What stands after a token does not go on with it. -/
structure Token.IsApart (t : Token) (after : List Char) : Prop where
  word : t.kind = .word → ∀ c ∈ after.head?, isWordContinue c = false
  colon : t.kind = .mark .colon → after.head? ≠ some ':'

private theorem head?_of_splitMark? {cs rest : List Char}
    (h : splitMark? cs = some (.colon, rest)) : rest.head? ≠ some ':' := by
  unfold splitMark? at h
  split at h <;> cases h
  next hcolon =>
    intro hhead
    obtain ⟨more, rfl⟩ := List.head?_eq_some_iff.mp hhead
    exact hcolon more rfl

variable {text : List Char} {p : Position} {cs : List Char} {t : Token} {stop : Cursor}

private theorem isApart_of_kind {after : List Char} (hword : t.kind ≠ .word)
    (hcolon : t.kind ≠ .mark .colon) : t.IsApart after :=
  ⟨fun h ↦ absurd h hword, fun h ↦ absurd h hcolon⟩

private theorem takes_of_scanToken (h : IsRest text p cs) (hscan : scanToken p cs = (.ok t, stop)) :
    t.start = p ∧ t.text.toList ++ stop.rest = cs ∧ t.IsApart stop.rest := by
  unfold scanToken at hscan
  split at hscan
  · cases hscan
    exact ⟨rfl, rfl, isApart_of_kind nofun nofun⟩
  · next cs =>
    have hplaces := scanLiteral_places p (p.advance '"') cs ['"'] rfl h
    generalize scanLiteral p (p.advance '"') cs = r at hscan hplaces
    obtain ⟨_ | l, stop'⟩ := r <;> cases hscan
    refine ⟨rfl, ?_, isApart_of_kind nofun nofun⟩
    rw [String.toList_ofList, hplaces.ok l rfl, List.cons_append]
  · next c cs _ =>
    split at hscan
    · rw [splitWord, List.span_eq_takeWhile_dropWhile] at hscan
      cases hscan
      refine ⟨rfl, ?_, fun _ d hd ↦ ?_, by rintro ⟨⟩⟩
      · rw [String.toList_ofList, List.cons_append, List.takeWhile_append_dropWhile]
      · have := List.head?_dropWhile_not isWordContinue cs
        rw [hd] at this
        simpa using this
    · split at hscan
      · next m rest hm =>
        cases hscan
        refine ⟨rfl, ?_, by rintro ⟨⟩, fun hkind ↦ ?_⟩
        · rw [String.toList_ofList, splitMark?_chars hm]
        · cases hkind
          exact head?_of_splitMark? hm
      · cases hscan

private theorem text_of_scanToken (h : IsRest text p cs) (hscan : scanToken p cs = (.ok t, stop)) :
    (t.text = "" ↔ t.kind = .endOfInput) ∧ (t.kind = .endOfInput → stop.rest = []) := by
  obtain ⟨-, htext, -⟩ := takes_of_scanToken h hscan
  have hend := scanToken_endOfInput_iff (congrArg Prod.fst hscan)
  rw [hend, ← String.toList_eq_nil_iff]
  refine ⟨⟨fun hempty ↦ ?_, fun hcs ↦ ?_⟩, fun hcs ↦ ?_⟩
  · by_contra hcs
    have hlt := scanToken_length_lt p hcs
    rw [hscan, ← htext, hempty] at hlt
    exact absurd hlt (Nat.lt_irrefl _)
  · exact (List.append_eq_nil_iff.mp (htext.trans hcs)).1
  · exact (List.append_eq_nil_iff.mp (htext.trans hcs)).2

/-- A token stands in a source after a gap, and its location marks the characters that it is written
with. -/
structure Tile (source : Source) (t : Token) (before gap after : List Char) : Prop where
  whole : before ++ gap ++ t.text.toList ++ after = source.text.toList
  skipped : IsGap (t.text.toList ++ after) gap
  marks : (⟨source, t.span⟩ : Location).Marks source (before ++ gap) t.text.toList
  apart : t.IsApart after
  empty_iff : t.text = "" ↔ t.kind = .endOfInput
  ended : t.kind = .endOfInput → after = []

/-- The tokens with the gaps before them make up what a source has after some characters. -/
def Tiled (source : Source) : List Char → List Token → Prop
  | before, [] => before = source.text.toList
  | before, t :: ts =>
    ∃ gap after, Tile source t before gap after ∧ Tiled source (before ++ gap ++ t.text.toList) ts

/-! ### Scanning -/

variable {source : Source} {before : List Char} {cursor : Cursor} {ts : List Token} {eof : Token}

private theorem IsRest.eq_after (h : IsRest text p cs) (hbefore : before ++ cs = text) :
    p = Position.start.after before := by
  obtain ⟨before', hbefore', rfl⟩ := h
  rw [List.append_cancel_right (hbefore'.trans hbefore.symm)]

private theorem tile_of_next (hbefore : before ++ cursor.rest = source.text.toList)
    (hplace : cursor.position = Position.start.after before)
    (hnext : cursor.next = (.ok t, stop)) :
    ∃ gap, Tile source t before gap stop.rest ∧
      stop.position = Position.start.after (before ++ gap ++ t.text.toList) := by
  have hrest : IsRest source.text.toList cursor.position cursor.rest := ⟨before, hbefore, hplace⟩
  have hplaces := next_places hrest
  rw [hnext] at hplaces
  rw [Cursor.next] at hnext
  split at hnext
  · cases hnext
  · next middle hskip =>
    obtain ⟨gap, htaken, hgap⟩ := finishes_of_skipGap .between _ _ hskip
    have hmiddle := (skipGap_places .between cursor.position cursor.rest hrest nofun).1
    rw [hskip] at hmiddle
    obtain ⟨hstart, htext, hapart⟩ := takes_of_scanToken hmiddle hnext
    obtain ⟨hempty, hended⟩ := text_of_scanToken hmiddle hnext
    have hwhole : before ++ gap ++ t.text.toList ++ stop.rest = source.text.toList := by
      rw [List.append_assoc, htext, List.append_assoc, htaken, hbefore]
    have hcovers : t.span.Covers source.text.toList (before ++ gap) t.text.toList := by
      refine ⟨⟨stop.rest, hwhole⟩, ?_, by rw [String.ofList_toList]; rfl⟩
      exact hstart.trans (hmiddle.eq_after (by rw [List.append_assoc, htaken, hbefore]))
    exact ⟨gap, ⟨hwhole, htext ▸ hgap, hcovers.marks, hapart, hempty, hended⟩,
      hplaces.rest.eq_after hwhole⟩

private theorem tiled_scanFrom (heof : eof.kind = .endOfInput) (steps : Nat) :
    ∀ {cursor : Cursor} {before : List Char}, before ++ cursor.rest = source.text.toList →
      cursor.position = Position.start.after before → (scanFrom steps cursor).ending = .ok eof →
      Tiled source before ((scanFrom steps cursor).tokens ++ [eof]) := by
  have hlast {cursor : Cursor} {before : List Char} {stop : Cursor}
      (hbefore : before ++ cursor.rest = source.text.toList)
      (hplace : cursor.position = Position.start.after before)
      (hnext : cursor.next = (.ok eof, stop)) : Tiled source before [eof] := by
    obtain ⟨gap, htile, -⟩ := tile_of_next hbefore hplace hnext
    refine ⟨gap, stop.rest, htile, ?_⟩
    have hwhole := htile.whole
    rwa [htile.ended heof, List.append_nil] at hwhole
  -- Along the tokens, each of which leaves what the next ones tile.
  induction steps with
  | zero =>
    intro cursor before hbefore hplace hending
    exact hlast hbefore hplace (Prod.ext hending rfl)
  | succ steps ih =>
    intro cursor before hbefore hplace hending
    rw [scanFrom] at hending ⊢
    split at hending
    · cases hending
    · next t after hnext =>
      split at hending
      · cases hending
        rw [if_pos heof]
        exact hlast hbefore hplace hnext
      · next hkind =>
        obtain ⟨gap, htile, hstop⟩ := tile_of_next hbefore hplace hnext
        simp only [if_neg hkind]
        exact ⟨gap, after.rest, htile, ih htile.whole hstop hending⟩

/-! ### Order -/

/-- The first token comes before the second, with no character in common. -/
def Token.Precedes (t u : Token) : Prop :=
  t.start.offset < u.start.offset ∧ t.span.stop ≤ u.start.offset

private theorem Tile.offset_eq {gap after : List Char} (h : Tile source t before gap after) :
    t.start.offset = (String.ofList before).utf8ByteSize + (String.ofList gap).utf8ByteSize := by
  rw [← byteSize_append]
  exact h.marks.offset

private theorem Tile.stop_eq {gap after : List Char} (h : Tile source t before gap after) :
    t.span.stop = (String.ofList (before ++ gap ++ t.text.toList)).utf8ByteSize := by
  rw [byteSize_append, ← h.marks.length, ← h.marks.offset]
  rfl

private theorem Tiled.le_offset : ∀ {ts : List Token} {before : List Char},
    Tiled source before ts → ∀ u ∈ ts, (String.ofList before).utf8ByteSize ≤ u.start.offset
  | [], _, _ => nofun
  | t :: ts, before, ⟨gap, after, htile, hrest⟩ => by
    intro u hu
    rcases List.mem_cons.mp hu with rfl | hu
    · rw [htile.offset_eq]
      exact Nat.le_add_right ..
    · have hle := hrest.le_offset u hu
      rw [byteSize_append, byteSize_append] at hle
      omega

private theorem Tiled.pairwise : ∀ {ts : List Token} {before : List Char},
    Tiled source before (ts ++ [eof]) → (∀ t ∈ ts, t.kind ≠ .endOfInput) →
      (ts ++ [eof]).Pairwise Token.Precedes
  | [], _, _, _ => List.pairwise_singleton _ _
  | t :: ts, before, ⟨gap, after, htile, hrest⟩, hkind => by
    rw [List.forall_mem_cons] at hkind
    refine List.pairwise_cons.mpr ⟨fun u hu ↦ ?_, hrest.pairwise hkind.2⟩
    have hle := hrest.le_offset u hu
    rw [← htile.stop_eq] at hle
    have htext : t.text ≠ "" := fun h ↦ hkind.1 (htile.empty_iff.mp h)
    have hpos : 0 < t.text.utf8ByteSize :=
      Nat.pos_of_ne_zero fun h ↦ htext (String.utf8ByteSize_eq_zero_iff.mp h)
    refine ⟨Nat.lt_of_lt_of_le ?_ hle, hle⟩
    exact Nat.lt_add_of_pos_right hpos

private theorem Tiled.exists_tile : ∀ {ts : List Token} {before : List Char},
    Tiled source before ts → ∀ t ∈ ts, ∃ before gap after, Tile source t before gap after
  | [], _, _ => nofun
  | _ :: _, before, ⟨gap, after, htile, hrest⟩ =>
    List.forall_mem_cons.mpr ⟨⟨before, gap, after, htile⟩, hrest.exists_tile⟩

/-- A source that scans without a failure is tiled by its tokens, which stand one after another. The
last of them is the end of input. It is empty and stands at the end of the source. -/
theorem scan_tiles (h : (scan source.text).ending = .ok eof) :
    Tiled source [] ((scan source.text).tokens ++ [eof]) ∧
    ((scan source.text).tokens ++ [eof]).Pairwise Token.Precedes ∧
    (∀ t ∈ (scan source.text).tokens, t.kind ≠ .endOfInput) ∧
    eof.kind = .endOfInput ∧ eof.text = "" ∧ eof.start.offset = source.text.utf8ByteSize := by
  have heof : eof.kind = .endOfInput :=
    (scan_ends source.text .ample eof h).kind_endOfInput_iff.mpr rfl
  have hkind : ∀ t ∈ (scan source.text).tokens, t.kind ≠ .endOfInput := by
    intro t ht hkind
    refine endOfInput_not_mem_scan source.text ?_
    rw [← (shows_of_mem_scan ht).kind_endOfInput_iff.mp hkind]
    exact List.mem_map_of_mem ht
  have htiled : Tiled source [] ((scan source.text).tokens ++ [eof]) :=
    tiled_scanFrom heof _ rfl rfl h
  obtain ⟨before, gap, after, htile⟩ :=
    htiled.exists_tile eof (List.mem_append_right _ (List.mem_singleton_self eof))
  have htext := htile.empty_iff.mpr heof
  refine ⟨htiled, htiled.pairwise hkind, hkind, heof, htext, ?_⟩
  have hwhole := htile.whole
  rw [htile.ended heof, htext, String.toList_empty, List.append_nil, List.append_nil] at hwhole
  rw [htile.offset_eq, ← byteSize_append, hwhole, String.ofList_toList]

/-- Comments hold quotes and openings of comments, a literal holds an opening of a comment, and
three colons are two marks. -/
theorem scan_tiles_awkward :
    let source : Source := ⟨"", "a:::/**/ \"/*\" // é \"\n/*\"//*/b"⟩
    let eof : Token := ⟨.endOfInput, "", "", ⟨30, 2, 9⟩⟩
    (scan source.text).ending = .ok eof ∧ eof.text = "" ∧
      Tiled source [] ((scan source.text).tokens ++ [eof]) := by
  intro source eof
  have h : (scan source.text).ending = .ok eof := by decide +kernel
  obtain ⟨htiled, -, -, -, hempty, -⟩ := scan_tiles h
  exact ⟨h, hempty, htiled⟩

end PolicySchema.Text
