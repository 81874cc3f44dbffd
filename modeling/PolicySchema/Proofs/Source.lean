import Mathlib.Data.List.DropRight
import PolicySchema.Source

/-!
# Stretches of a text

A stretch covers characters of a text if it starts after the characters before them and has as many
bytes as they have. Its line and column are then those of the first of them, and its snippet is
just these characters (`Span.Covers.marks`).
-/

namespace PolicySchema

/-! ### Places -/

private theorem byteSize_cons (c : Char) (cs : List Char) :
    (String.ofList (c :: cs)).utf8ByteSize = c.utf8Size + (String.ofList cs).utf8ByteSize := by
  rw [← List.singleton_append, String.ofList_append, String.utf8ByteSize_append,
    ← String.singleton_eq_ofList, String.utf8ByteSize_singleton]

/-- Characters have as many bytes as their parts. -/
theorem byteSize_append (cs ds : List Char) : (String.ofList (cs ++ ds)).utf8ByteSize =
    (String.ofList cs).utf8ByteSize + (String.ofList ds).utf8ByteSize := by
  rw [String.ofList_append, String.utf8ByteSize_append]

/-- A place is told by the characters before it: how many bytes they have, how many line feeds are
among them, and how many characters come after the last of these. -/
theorem Position.start_after (cs : List Char) : Position.start.after cs =
    ⟨(String.ofList cs).utf8ByteSize, cs.count '\n' + 1,
      (cs.rtakeWhile (· != '\n')).length + 1⟩ := by
  induction cs using List.reverseRecOn with
  | nil => rfl
  | append_singleton cs c ih =>
    rw [after_append, ih, after_cons, after_nil, advance, byteSize_append, List.count_append,
      List.rtakeWhile_concat, ← String.singleton_eq_ofList, String.utf8ByteSize_singleton]
    split
    · next h => simp [h]
    · next h => simp [h]

/-- Passing characters passes their bytes. -/
theorem Position.offset_after (p : Position) (cs : List Char) :
    (p.after cs).offset = p.offset + (String.ofList cs).utf8ByteSize := by
  induction cs generalizing p with
  | nil => rfl
  | cons c cs ih =>
    have hstep : (p.advance c).offset = p.offset + c.utf8Size := by
      rw [advance]
      split <;> rfl
    rw [after_cons, ih, hstep, byteSize_cons, Nat.add_assoc]

/-! ### Snippets -/

private theorem exists_byteSize (c : Char) (cs : List Char) :
    ∃ n, (String.ofList (c :: cs)).utf8ByteSize = n + 1 ∧ c.utf8Size ≤ n + 1 ∧
      n + 1 - c.utf8Size = (String.ofList cs).utf8ByteSize := by
  have hpos := c.utf8Size_pos
  obtain ⟨n, hn⟩ : ∃ n, c.utf8Size + (String.ofList cs).utf8ByteSize = n + 1 :=
    ⟨_, (Nat.sub_add_cancel (by omega)).symm⟩
  exact ⟨n, (byteSize_cons c cs).trans hn, by omega, by omega⟩

/-- The bytes of characters at the start of a text are dropped. -/
theorem dropBytes_append (cs ds : List Char) :
    dropBytes (String.ofList cs).utf8ByteSize (cs ++ ds) = some ds := by
  induction cs with
  | nil => cases ds <;> rfl
  | cons c cs ih =>
    obtain ⟨n, hn, hfirst, hothers⟩ := exists_byteSize c cs
    rw [hn, List.cons_append, dropBytes, if_pos hfirst, hothers, ih]

/-- The bytes of characters at the start of a text are these characters. -/
theorem takeBytes_append (cs ds : List Char) :
    takeBytes (String.ofList cs).utf8ByteSize (cs ++ ds) = some cs := by
  induction cs with
  | nil => cases ds <;> rfl
  | cons c cs ih =>
    obtain ⟨n, hn, hfirst, hothers⟩ := exists_byteSize c cs
    rw [hn, List.cons_append, takeBytes, if_pos hfirst, hothers, ih]
    rfl

/-! ### Stretches -/

/-- The stretch is that of characters of a text which stand after other characters. -/
structure Span.Covers (s : Span) (text before part : List Char) : Prop where
  within : before ++ part <+: text
  start : s.start = Position.start.after before
  length : s.length = (String.ofList part).utf8ByteSize

/-- The location is that of characters of a source: their offset and length are counted in bytes,
their line and column in line feeds and characters, and they are its snippet. -/
structure Location.Marks (l : Location) (source : Source) (before part : List Char) : Prop where
  origin : l.source = source
  within : before ++ part <+: source.text.toList
  offset : l.span.start.offset = (String.ofList before).utf8ByteSize
  line : l.span.start.line = before.count '\n' + 1
  column : l.span.start.column = (before.rtakeWhile (· != '\n')).length + 1
  length : l.span.length = (String.ofList part).utf8ByteSize
  snippet : l.snippet? = some (String.ofList part)

namespace Span

variable {s s' : Span} {text before before' part part' : List Char}

/-- A stretch that covers characters marks them. -/
theorem Covers.marks {source : Source} (h : s.Covers source.text.toList before part) :
    (⟨source, s⟩ : Location).Marks source before part where
  origin := rfl
  within := h.within
  offset := by rw [h.start, Position.start_after]
  line := by rw [h.start, Position.start_after]
  column := by rw [h.start, Position.start_after]
  length := h.length
  snippet := by
    obtain ⟨after, hafter⟩ := h.within
    rw [Location.snippet?, h.start, Position.start_after, h.length, ← hafter, List.append_assoc,
      dropBytes_append, Option.bind_some, takeBytes_append, Option.map_some]

/-- What stands between two places in a text is covered. -/
theorem covers_between (h : before ++ part <+: text) :
    (between (Position.start.after before) (Position.start.after (before ++ part))).Covers text
      before part := by
  refine ⟨h, rfl, ?_⟩
  rw [between, Position.after_append, Position.offset_after, Nat.add_sub_cancel_left]

/-- From the start of a stretch to the end of another, characters are covered. They are none if the
second ends before the first starts. -/
theorem Covers.through (h : s.Covers text before part) (h' : s'.Covers text before' part') :
    ∃ whole, (s.through s').Covers text before whole := by
  have hbefore := (List.prefix_append before part).trans h.within
  have hstart : s.start.offset = (String.ofList before).utf8ByteSize := by
    rw [h.start, Position.start_after]
  have hstop : s'.stop = (String.ofList (before' ++ part')).utf8ByteSize := by
    rw [stop, h'.start, h'.length, Position.start_after, byteSize_append]
  -- Both the first stretch's start and the second one's end are starts of the same text.
  rcases List.prefix_or_prefix_of_prefix hbefore h'.within with hle | hle
  · obtain ⟨whole, hwhole⟩ := hle
    refine ⟨whole, hwhole ▸ h'.within, h.start, ?_⟩
    rw [Span.through, hstart, hstop, ← hwhole, byteSize_append, Nat.add_sub_cancel_left]
  · obtain ⟨more, hmore⟩ := hle
    refine ⟨[], by rwa [List.append_nil], h.start, ?_⟩
    rw [Span.through, hstart, hstop, ← hmore, byteSize_append _ more,
      Nat.sub_eq_zero_of_le (Nat.le_add_right ..)]
    rfl

end Span

end PolicySchema
