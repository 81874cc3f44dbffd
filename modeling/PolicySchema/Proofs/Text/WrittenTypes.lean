import PolicySchema.Proofs.Text.NormalForm
import PolicySchema.Proofs.Text.TypeRecognition
import PolicySchema.Proofs.Text.Vetting
import PolicySchema.Proofs.Text.WrittenTokens

/-!
# Writing types

The pieces of names, lists, annotations and types scan as their symbols, and these symbols are what
the grammar derives for the value in its normal form.
-/

namespace PolicySchema.Text.Writing

open Syntax Grammar

variable {ps : List Piece} {ρ : Type}

/-! ### Blanks, names and keys -/

/-- The end of a line is sealed. -/
theorem sealed_newline (h : Sealed ps) : Sealed (newline :: ps) := h.blank (by decide)

/-- The end of a line is a break. -/
theorem breaks_newline (ps : List Piece) : Breaks (newline :: ps) :=
  ⟨'\n', charsOf ps, rfl, by decide⟩

/-- A space is sealed. -/
theorem sealed_space (h : Sealed ps) : Sealed (space :: ps) := h.blank (by decide)

/-- The start of a line is sealed. -/
theorem sealed_indentation (indent : Nat) (h : Sealed ps) :
    Sealed (indentation indent :: ps) := by
  apply h.blank
  rw [List.all_eq_true]
  intro c hc
  rw [String.toList_ofList] at hc
  rw [List.eq_of_mem_replicate hc]
  decide

/-- The word of an identifier scans. -/
theorem scans_identifier (id : Identifier) : Scans [.word id.text] := by
  have h := id.bare
  rw [isBare, Bool.and_eq_true] at h
  exact scans_word h.1

private theorem scans_path (id : Identifier) (ids : List Identifier) :
    Scans (((id :: ids).map fun id ↦ Piece.word id.text).intersperse (.mark .doubleColon)) := by
  induction ids generalizing id with
  | nil => exact scans_identifier id
  | cons next ids ih =>
    exact (scans_identifier id).append_scans
      ((Sealed.mark .doubleColon (by decide) sealed_nil).append_scans (ih next)) (breaks_mark ..)

/-- A name scans. -/
theorem scans_nameParts (n : Name) : Scans (nameParts n) := by
  rw [nameParts]
  cases hn : n.components with
  | nil => simp [Name.components] at hn
  | cons id ids => exact scans_path id ids

private theorem symbolsOf_path (id : Identifier) (ids : List Identifier) :
    symbolsOf (((id :: ids).map fun id ↦ Piece.word id.text).intersperse (.mark .doubleColon)) =
      .word id.text :: links ids := by
  induction ids generalizing id with
  | nil => rfl
  | cons next ids ih =>
    have h := ih next
    rw [List.map_cons] at h ⊢
    rw [List.map_cons, List.intersperse_cons_cons, symbolsOf_word, symbolsOf_mark, h]
    rfl

/-- A name is written as a path. -/
theorem isPath_nameParts (n : Name) : IsPath n (symbolsOf (nameParts n)) := by
  rw [nameParts]
  cases hn : n.components with
  | nil => simp [Name.components] at hn
  | cons id ids => exact isPath_iff.mpr ⟨id, ids, hn, symbolsOf_path id ids⟩

/-- A key scans. -/
theorem scans_key (k : String) : Scans [key k] := by
  rw [key]
  split
  · next h =>
    rw [isBare, Bool.and_eq_true] at h
    exact scans_word h.1
  · exact (Sealed.literal k sealed_nil).scans

/-- A key is written as one. -/
theorem isKey_key (k : String) : IsKey k (symbolsOf [key k]) := by
  rw [key]
  split
  · next h =>
    rw [isBare, Bool.and_eq_true, bne_iff_ne] at h
    exact .word h.2
  · exact .literal k

/-- Sealed pieces for each item are sealed together. -/
theorem sealed_flatMap {α : Type} {as : List α} {f : α → List Piece}
    (h : ∀ a ∈ as, Sealed (f a)) : Sealed (as.flatMap f) := by
  induction as with
  | nil => exact sealed_nil
  | cons a as ih =>
    exact (h a List.mem_cons_self).append (ih fun b hb ↦ h b (List.mem_cons_of_mem _ hb))

/-! ### Lists -/

section Lists

variable {α : Type} {f : α → List Piece}

private theorem scans_items (a : α) (as : List α) (h : ∀ b ∈ a :: as, Scans (f b)) :
    Scans (((a :: as).map f).intersperse [.mark .comma, space]).flatten := by
  induction as generalizing a with
  | nil => simpa using h a List.mem_cons_self
  | cons b as ih =>
    have hrest := ih b fun c hc ↦ h c (List.mem_cons_of_mem _ hc)
    have hcomma := Sealed.mark .comma (by decide) (sealed_space sealed_nil)
    have ha := (h a List.mem_cons_self).append_scans (hcomma.append_scans hrest) (breaks_mark ..)
    simpa using ha

/-- Items that scan are sealed by the brackets around them. -/
theorem sealed_listParts {as : List α} (h : ∀ a ∈ as, Scans (f a)) :
    Sealed (listParts (as.map f)) := by
  rw [listParts]
  have hclose : Sealed [.mark .rightBracket] := Sealed.mark .rightBracket (by decide) sealed_nil
  cases as with
  | nil => exact Sealed.mark .leftBracket (by decide) hclose
  | cons a as =>
    exact Sealed.mark .leftBracket (by decide) ((scans_items a as h).append hclose (breaks_mark ..))

private theorem separated_items {P : α → List Symbol → Prop} (a : α) (as : List α)
    (h : ∀ b ∈ a :: as, P b (symbolsOf (f b))) :
    Separated .comma P (a :: as)
      (symbolsOf (((a :: as).map f).intersperse [.mark .comma, space]).flatten) := by
  induction as generalizing a with
  | nil => simpa using Separated.last (h a List.mem_cons_self)
  | cons b as ih =>
    have hrest := ih b fun c hc ↦ h c (List.mem_cons_of_mem _ hc)
    have ha := Separated.more (h a List.mem_cons_self) hrest
    simpa [space] using ha

/-- Items are written as a list in brackets. -/
theorem listed_listParts {P : α → List Symbol → Prop} {as : List α}
    (h : ∀ a ∈ as, P a (symbolsOf (f a))) : Listed P as (symbolsOf (listParts (as.map f))) := by
  cases as with
  | nil => exact .empty
  | cons a as => simpa [listParts] using Listed.bracketed (separated_items a as h)

/-- Items are written with commas between them inside the brackets. -/
theorem symbolsOf_listParts {P : α → List Symbol → Prop} (a : α) (as : List α)
    (h : ∀ b ∈ a :: as, P b (symbolsOf (f b))) :
    ∃ u, symbolsOf (listParts ((a :: as).map f)) =
      .mark .leftBracket :: u ++ [.mark .rightBracket] ∧ Separated .comma P (a :: as) u :=
  ⟨_, by simp [listParts], separated_items a as h⟩

end Lists

/-! ### Annotations -/

private theorem sealed_annotationParts (indent : Nat) (id : Identifier) (value : String) :
    Sealed (annotationParts indent id value) := by
  have hvalue : Sealed ((if value.isEmpty then []
      else [.mark .leftParen, .literal value, .mark .rightParen]) ++ [newline]) := by
    split
    · exact sealed_newline sealed_nil
    · exact Sealed.mark .leftParen (by decide)
        (Sealed.literal value (Sealed.mark .rightParen (by decide) (sealed_newline sealed_nil)))
  have hbreak : Breaks ((if value.isEmpty then []
      else [.mark .leftParen, .literal value, .mark .rightParen]) ++ [newline]) := by
    split
    · exact breaks_newline _
    · exact breaks_mark ..
  rw [annotationParts, List.append_assoc]
  exact sealed_indentation indent
    (Sealed.mark .at (by decide) ((scans_identifier id).append hvalue hbreak))

/-- Annotations are sealed. -/
theorem sealed_annotationsParts (indent : Nat) (notes : Annotations) :
    Sealed (annotationsParts indent notes) :=
  sealed_flatMap fun _ _ ↦ sealed_annotationParts ..

/-- Annotations are written as they are. -/
theorem isNotes_annotationsParts (indent : Nat) (notes : Annotations) :
    IsNotes notes (symbolsOf (annotationsParts indent notes)) := by
  have hone (id : Identifier) (value : String) :
      IsAnnotation (id, value) (symbolsOf (annotationParts indent id value)) := by
    rw [annotationParts]
    split
    · next h =>
      rw [String.isEmpty_iff.mp h]
      exact .keyed .none
    · exact .keyed (.given value)
  have hall (entries : List (Identifier × String)) : Syntax.Repeated IsAnnotation entries
      (symbolsOf (entries.flatMap fun e ↦ annotationParts indent e.1 e.2)) := by
    induction entries with
    | nil => exact .none
    | cons e entries ih =>
      rw [List.flatMap_cons, symbolsOf_append]
      exact .more (hone e.1 e.2) ih
  have h := IsNotes.listed (hall notes.entries) notes.keys_nodup
  rw [Table.ofList_entries] at h
  exact h

/-! ### Types -/

private theorem isPath_builtin (id : Identifier) :
    IsPath ⟨[Name.builtinNamespace], id⟩
      [.word Name.builtinNamespace.text, .mark .doubleColon, .word id.text] :=
  isPath_iff.mpr ⟨Name.builtinNamespace, [id], rfl, rfl⟩

private theorem scans_primitive (p : Primitive) : Scans [.word p.text] := by
  apply scans_word
  cases p <;> decide

private theorem scans_refParts (r : TypeRef) : Scans (refParts r) := by
  cases r with
  | primitive p => exact scans_primitive p
  | entity n => exact scans_nameParts n
  | common n => exact scans_nameParts n
  | entityOrCommon n => exact scans_nameParts n
  | extension id =>
    exact (scans_identifier Name.builtinNamespace).append_scans
      ((Sealed.mark .doubleColon (by decide) sealed_nil).append_scans (scans_identifier id))
      (breaks_mark ..)

private theorem isType_refParts {r : TypeRef} (h : r.IsWritable) :
    IsType (.leaf r.normal) (symbolsOf (refParts r)) := by
  cases r with
  | primitive p =>
    have hid : isBare p.text = true := by cases p <;> decide
    exact .named (n := .bare ⟨p.text, hid⟩) (.last (.word ⟨p.text, hid⟩)) (.primitive rfl rfl)
  | entity n => exact .named (isPath_nameParts n) (means_asRef h)
  | common n => exact .named (isPath_nameParts n) (means_asRef h)
  | entityOrCommon n => exact .named (isPath_nameParts n) (means_asRef h)
  | extension id => exact .named (isPath_builtin id) (.extension rfl h)

mutual

/-- A type scans. -/
theorem scans_typeParts (indent : Nat) : ∀ t : TypeExpr TypeRef, Scans (typeParts indent t)
  | .leaf r => scans_refParts r
  | .set element => by
    have hclose : Sealed [.mark .rightAngle] := Sealed.mark .rightAngle (by decide) sealed_nil
    have helement := (scans_typeParts indent element).append hclose (breaks_mark ..)
    have hset : Scans [.word "Set"] := scans_word (by decide)
    have h := hset.append (Sealed.mark .leftAngle (by decide) helement) (breaks_mark ..)
    rw [typeParts]
    simpa using h.scans
  | .record .nil _ =>
    (Sealed.mark .leftBrace (by decide) (Sealed.mark .rightBrace (by decide) sealed_nil)).scans
  | .record (.cons key type required notes rest) _ => by
    have hclose : Sealed [indentation indent, .mark .rightBrace] :=
      sealed_indentation indent (Sealed.mark .rightBrace (by decide) sealed_nil)
    have hfields := sealed_fieldsParts (indent + indentStep) (.cons key type required notes rest)
    have h := Sealed.mark .leftBrace (by decide) (sealed_newline (hfields.append hclose))
    rw [typeParts]
    · simpa using h.scans
    · nofun

/-- Attributes are sealed. -/
theorem sealed_fieldsParts (indent : Nat) : ∀ f : Fields TypeRef, Sealed (fieldsParts indent f)
  | .nil => sealed_nil
  | .cons k type required notes rest => by
    have hrest := Sealed.mark .comma (by decide) (sealed_newline (sealed_fieldsParts indent rest))
    have htype := ((scans_typeParts indent type).append hrest (breaks_mark ..)).colon
    have hkey : Sealed ([key k] ++ ((if required then [] else [.mark .question]) ++
        .mark .colon :: space :: (typeParts indent type ++
          .mark .comma :: newline :: fieldsParts indent rest))) := by
      split
      · exact (scans_key k).append htype (breaks_mark ..)
      · exact (scans_key k).append (Sealed.mark .question (by decide) htype) (breaks_mark ..)
    have h := (sealed_annotationsParts indent notes).append (sealed_indentation indent hkey)
    rw [fieldsParts]
    simpa using h

end

private theorem symbolsOf_record (indent : Nat) (fields : Fields TypeRef) (notes : Annotations) :
    symbolsOf (typeParts indent (.record fields notes)) =
      .mark .leftBrace :: symbolsOf (fieldsParts (indent + indentStep) fields) ++
        [.mark .rightBrace] := by
  cases fields with
  | nil => rfl
  | cons => simp [typeParts, newline, indentation]

private theorem symbolsOf_field (indent : Nat) (k : String) (type : TypeExpr TypeRef)
    (required : Bool) (notes : Annotations) (rest : Fields TypeRef) :
    symbolsOf (fieldsParts indent (.cons k type required notes rest)) =
      (symbolsOf (annotationsParts indent notes) ++ (symbolsOf [key k] ++
        ((if required then [] else [.mark .question]) ++
          .mark .colon :: symbolsOf (typeParts indent type)))) ++
        .mark .comma :: symbolsOf (fieldsParts indent rest) := by
  have hkey : symbolsOf [indentation indent, key k] = symbolsOf [key k] := rfl
  rw [fieldsParts]
  simp only [symbolsOf_append, hkey]
  cases required <;> simp [newline, space]

private theorem ofTable_ofList {fields : Fields ρ} (h : Ascending fields.toList) :
    Fields.ofTable (Table.ofList fields.toList) = fields := by
  rw [Fields.ofTable, Table.entries_ofList h, Fields.ofList_toList]

mutual

/-- A type without annotated records is written as its normal form. -/
theorem isType_typeParts (indent : Nat) : ∀ {t : TypeExpr TypeRef}, t.IsPlain →
    t.WellFormed TypeRef.IsWritable →
      IsType (t.mapRefs TypeRef.normal) (symbolsOf (typeParts indent t))
  | .leaf r, _, hwf => isType_refParts hwf
  | .set element, h, hwf => by
    have hset : IsType ((TypeExpr.set element).mapRefs TypeRef.normal) _ :=
      .set (isType_typeParts indent (t := element) h hwf)
    rw [typeParts]
    simpa using hset
  | .record fields notes, h, hwf => by
    obtain ⟨rfl, hplain⟩ := h
    have hfields := trailing_fieldsParts (indent + indentStep) hplain hwf.2
    have hsorted := Fields.ascending_mapRefs (f := TypeRef.normal) hwf.1
    have hrecord := IsRecord.braces hfields (Table.keys_nodup ⟨_, hsorted⟩)
    rw [ofTable_ofList hsorted] at hrecord
    rw [symbolsOf_record]
    exact .record hrecord

/-- Attributes without annotated records are written as their normal form. -/
theorem trailing_fieldsParts (indent : Nat) : ∀ {fields : Fields TypeRef}, fields.IsPlain →
    fields.WellFormed TypeRef.IsWritable →
      Trailing IsAttribute (fields.mapRefs TypeRef.normal).toList
        (symbolsOf (fieldsParts indent fields))
  | .nil, _, _ => .none
  | .cons k type required notes rest, h, hwf => by
    rw [symbolsOf_field]
    refine .more ?_ (trailing_fieldsParts indent h.2 hwf.2)
    exact isAttribute_iff.mpr ⟨_, _, _, _, rfl, isNotes_annotationsParts indent notes,
      isKey_key k, rfl, isType_typeParts indent h.1 hwf.1⟩

end

end PolicySchema.Text.Writing
