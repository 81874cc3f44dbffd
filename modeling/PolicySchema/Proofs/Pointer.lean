import PolicySchema.Pointer

/-!
# Reading pointers back

The text of a pointer splits at its slashes into an empty part and one part for each key, and each
part is read back as its key (`exists_parts`). In a key that is written the tildes are escaped
before the slashes, so in a part that is read the slashes come first: then no tilde that stood in a
key is taken for the escape of a slash.
-/

namespace PolicySchema.Pointer

/-- The parts of a text between its slashes. -/
def parts (text : String) : List String := (text.split '/').toList.map String.Slice.copy

/-- Puts the character `c` in place of each tilde with the given digit after it, from the left. -/
def unescape (c digit : Char) : List Char → List Char
  | '~' :: d :: cs =>
    if d = digit then c :: unescape c digit cs else '~' :: unescape c digit (d :: cs)
  | d :: cs => d :: unescape c digit cs
  | [] => []

/-- The key that a part stands for. -/
def keyOf (part : String) : String :=
  String.ofList (unescape '~' '0' (unescape '/' '1' part.toList))

private def escapeEach (c digit : Char) (cs : List Char) : List Char :=
  cs.flatMap fun d ↦ if d = c then ['~', digit] else [d]

section

variable {c d digit : Char} (cs : List Char)

private theorem escapeEach_self :
    escapeEach c digit (c :: cs) = '~' :: digit :: escapeEach c digit cs := by
  simp [escapeEach]

private theorem escapeEach_of_ne (h : d ≠ c) :
    escapeEach c digit (d :: cs) = d :: escapeEach c digit cs := by
  simp [escapeEach, h]

private theorem unescape_pair :
    unescape c digit ('~' :: digit :: cs) = c :: unescape c digit cs := by
  rw [unescape, if_pos rfl]

private theorem unescape_of_digit_ne (h : d ≠ digit) :
    unescape c digit ('~' :: d :: cs) = '~' :: unescape c digit (d :: cs) := by
  rw [unescape, if_neg h]

private theorem unescape_of_ne (h : d ≠ '~') :
    unescape c digit (d :: cs) = d :: unescape c digit cs := by
  rw [unescape]
  exact fun _ _ hd ↦ absurd hd h

private theorem flatMap_escape :
    cs.flatMap escape = escapeEach '/' '1' (escapeEach '~' '0' cs) := by
  induction cs with
  | nil => rfl
  | cons c cs ih =>
    rw [List.flatMap_cons, ih]
    by_cases htilde : c = '~'
    · subst htilde
      rw [escapeEach_self, escapeEach_of_ne _ (by decide), escapeEach_of_ne _ (by decide)]
      rfl
    · rw [escapeEach_of_ne _ htilde]
      by_cases hslash : c = '/'
      · subst hslash
        rw [escapeEach_self]
        rfl
      · rw [escapeEach_of_ne _ hslash, escape]
        · rfl
        · exact htilde
        · exact hslash

private theorem unescape_slashes :
    unescape '/' '1' (escapeEach '/' '1' (escapeEach '~' '0' cs)) = escapeEach '~' '0' cs := by
  induction cs with
  | nil => rfl
  | cons c cs ih =>
    by_cases htilde : c = '~'
    · subst htilde
      rw [escapeEach_self, escapeEach_of_ne _ (by decide), escapeEach_of_ne _ (by decide),
        unescape_of_digit_ne _ (by decide), unescape_of_ne _ (by decide), ih]
    · rw [escapeEach_of_ne _ htilde]
      by_cases hslash : c = '/'
      · subst hslash
        rw [escapeEach_self, unescape_pair, ih]
      · rw [escapeEach_of_ne _ hslash, unescape_of_ne _ htilde, ih]

private theorem unescape_tildes : unescape '~' '0' (escapeEach '~' '0' cs) = cs := by
  induction cs with
  | nil => rfl
  | cons c cs ih =>
    by_cases htilde : c = '~'
    · subst htilde
      rw [escapeEach_self, unescape_pair, ih]
    · rw [escapeEach_of_ne _ htilde, unescape_of_ne _ htilde, ih]

private theorem slash_not_mem_escape : '/' ∉ cs.flatMap escape := by
  rw [List.mem_flatMap]
  rintro ⟨c, -, hc⟩
  unfold escape at hc
  split at hc
  · exact absurd hc (by decide)
  · exact absurd hc (by decide)
  · next hslash => exact hslash (List.mem_singleton.mp hc).symm

end

private theorem keyOf_escape (key : String) :
    keyOf (String.ofList (key.toList.flatMap escape)) = key := by
  rw [keyOf, String.toList_ofList, flatMap_escape, unescape_slashes, unescape_tildes,
    String.ofList_toList]

private theorem intercalate_slash (first : List Char) (rest : List (List Char)) :
    ['/'].intercalate (first :: rest) = first ++ rest.flatMap ('/' :: ·) := by
  induction rest generalizing first with
  | nil => simp
  | cons next rest ih =>
    rw [List.intercalate_cons_cons, ih]
    simp

private theorem parts_text (p : Pointer) :
    parts p.text = "" :: p.keys.map fun key ↦ String.ofList (key.toList.flatMap escape) := by
  have hchars : p.chars =
      ['/'].intercalate ([] :: p.keys.map fun key ↦ key.toList.flatMap escape) := by
    rw [intercalate_slash, List.flatMap_map]
    rfl
  have hsplit : p.chars.splitOn '/' = [] :: p.keys.map fun key ↦ key.toList.flatMap escape := by
    rw [hchars]
    refine List.splitOn_intercalate '/' ?_ (List.cons_ne_nil _ _)
    rw [List.forall_mem_cons, List.forall_mem_map]
    exact ⟨List.not_mem_nil, fun key _ ↦ slash_not_mem_escape _⟩
  rw [parts, String.toList_split_char, text, String.toList_ofList, hsplit]
  simp

/-- The first part of the text of a pointer is empty, and the others are read back as its keys. -/
theorem exists_parts (p : Pointer) :
    ∃ rest, parts p.text = "" :: rest ∧ rest.map keyOf = p.keys := by
  refine ⟨_, parts_text p, ?_⟩
  rw [List.map_map]
  exact List.map_id'' keyOf_escape p.keys

/-- The text of a pointer determines it. -/
theorem text_inj {p q : Pointer} (h : p.text = q.text) : p = q := by
  obtain ⟨rest, hp, hkeys⟩ := p.exists_parts
  obtain ⟨rest', hq, hkeys'⟩ := q.exists_parts
  rw [h, hq] at hp
  cases hp
  obtain ⟨keys⟩ := p
  obtain ⟨keys'⟩ := q
  exact congrArg mk (hkeys.symm.trans hkeys')

end PolicySchema.Pointer
