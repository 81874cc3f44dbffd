import PolicySchema.Proofs.Text.Acceptance
import PolicySchema.Proofs.Text.Naming
import PolicySchema.Proofs.Text.Spans
import PolicySchema.Proofs.Unicode.Utf8

/-!
# Locations point at what they are about

Whatever is read, its location marks characters of the source: an error the stretch where the source
cannot be read, and a declaration the token that names it. Bytes that are no UTF-8 are reported
where the first ill-formed part begins (`read_located`).
-/

namespace PolicySchema.Text

open Syntax

variable {source : Source} {items : List Item} {s : Schema}

/-! ### Declarations of a schema and items -/

section

variable {κ α : Type} [Ord κ] {item : Declared κ α → Item}
  {table : Namespace → Table κ (Declaration α)}

private def Drawn (source : Source) (items : List Item) (item : Declared κ α → Item)
    (table : Namespace → Table κ (Declaration α)) (s : Schema) : Prop :=
  ∀ ns key d, (table (s.declared ns)).find? key = some d →
    ∃ span, item ⟨ns, key, span, d.body, d.annotations⟩ ∈ items ∧
      d.location = some ⟨source, span⟩

private theorem Drawn.keep (h : Drawn source items item table s) (ns : Option Name)
    {f : Namespace → Namespace} (hf : ∀ e, table (f e) = table e) :
    Drawn source items item table (s.update ns f) := by
  intro j key d hd
  rw [Schema.declared_update] at hd
  split at hd
  · next hj =>
    rw [hf, ← hj] at hd
    exact h j key d hd
  · exact h j key d hd

private theorem Drawn.insert [DecidableEq κ] [Std.TransOrd κ] [Std.LawfulEqOrd κ]
    (h : Drawn source items item table s) {e : Declared κ α} (he : item e ∈ items)
    {f : Namespace → Namespace}
    (hf : ∀ ns, table (f ns) = (table ns).insert e.key (e.toDeclaration source)) :
    Drawn source items item table (s.update e.ns f) := by
  intro j key d hd
  rw [Schema.declared_update] at hd
  split at hd
  · next hj =>
    subst hj
    rw [hf, Table.find?_insert] at hd
    split at hd
    · next hkey =>
      cases hd
      subst hkey
      exact ⟨e.span, he, rfl⟩
    · exact h _ key d hd
  · exact h j key d hd

end

-- Every declaration of the schema is that of an item.
private structure AllDrawn (source : Source) (items : List Item) (s : Schema) : Prop where
  commonTypes : Drawn source items Item.commonType Namespace.commonTypes s
  entityTypes : Drawn source items Item.entityType Namespace.entityTypes s
  actions : Drawn source items Item.action Namespace.actions s

private theorem allDrawn_add {a b : Assembly} {item : Item} (h : AllDrawn source items a.schema)
    (hitem : item ∈ items) (hadd : a.add source item = .ok b) :
    AllDrawn source items b.schema := by
  obtain ⟨hcommon, hentity, haction⟩ := h
  -- One table has a declaration more, that of the item. The others stay as they are.
  cases item with
  | block n notes span =>
    rw [Assembly.add] at hadd
    split at hadd <;> cases hadd
    exact ⟨hcommon.keep _ fun _ ↦ rfl, hentity.keep _ fun _ ↦ rfl, haction.keep _ fun _ ↦ rfl⟩
  | commonType d =>
    rw [Assembly.add] at hadd
    split at hadd <;> cases hadd
    exact ⟨hcommon.insert hitem fun _ ↦ rfl, hentity.keep _ fun _ ↦ rfl,
      haction.keep _ fun _ ↦ rfl⟩
  | entityType d =>
    rw [Assembly.add] at hadd
    split at hadd
    · split at hadd <;> cases hadd
    · cases hadd
      exact ⟨hcommon.keep _ fun _ ↦ rfl, hentity.insert hitem fun _ ↦ rfl,
        haction.keep _ fun _ ↦ rfl⟩
  | action d =>
    rw [Assembly.add] at hadd
    split at hadd <;> cases hadd
    exact ⟨hcommon.keep _ fun _ ↦ rfl, hentity.keep _ fun _ ↦ rfl,
      haction.insert hitem fun _ ↦ rfl⟩

private theorem allDrawn_addAll {l : List Item} (hl : ∀ item ∈ l, item ∈ items) :
    ∀ {a b : Assembly}, AllDrawn source items a.schema → a.addAll source l = .ok b →
      AllDrawn source items b.schema := by
  induction l with
  | nil =>
    intro a b h hadd
    cases hadd
    exact h
  | cons item l ih =>
    intro a b h hadd
    rw [Assembly.addAll] at hadd
    cases hstep : a.add source item with
    | error f =>
      rw [hstep] at hadd
      cases hadd
    | ok c =>
      rw [hstep] at hadd
      exact ih (fun i hi ↦ hl i (List.mem_cons_of_mem _ hi))
        (allDrawn_add h (hl item List.mem_cons_self) hstep) hadd

private theorem allDrawn_assemble (h : assemble source items = .ok s) :
    AllDrawn source items s := by
  rw [assemble] at h
  cases hadd : Assembly.empty.addAll source items with
  | error f =>
    rw [hadd] at h
    cases h
  | ok a =>
    rw [hadd] at h
    cases h
    have hempty : AllDrawn source items Assembly.empty.schema := by
      constructor <;> intro ns key d hd <;> cases hd
    exact allDrawn_addAll (fun _ hi ↦ hi) hempty hadd

/-! ### Located declarations -/

/-- The name that is introduced. -/
def Introduced.name : Introduced → String
  | block n => n.text
  | commonType _ key | entityType _ key => key.text
  | action _ key => key

/-- The location marks just a token of the source that names what is introduced, and the token
stands for its name. -/
def LocatedAt (source : Source) (x : Introduced) (location : Option Location) : Prop :=
  ∃ before t after chars, (scan source.text).tokens = before ++ t :: after ∧
    Names x (before.map Token.symbol) t.symbol ∧ t.value = x.name ∧
    ∃ l, location = some l ∧ l.Marks source chars t.text.toList

private theorem value_of_isIdentifier {t : Token} (h : Shows t t.symbol) {id : Identifier}
    (hid : IsIdentifier id [t.symbol]) : t.value = id.text := by
  generalize t.symbol = x at h hid
  cases hid
  cases h
  rfl

private theorem value_of_isKey {t : Token} (h : Shows t t.symbol) {key : String}
    (hkey : IsKey key [t.symbol]) : t.value = key := by
  generalize t.symbol = x at h hkey
  cases hkey <;> cases h <;> rfl

private theorem value_of_names {t : Token} (h : Shows t t.symbol) {x : Introduced}
    {before : List Symbol} (hnames : Names x before t.symbol) : t.value = x.name := by
  cases hnames with
  | commonType _ _ hid => exact value_of_isIdentifier h hid
  | entityType _ _ _ hid => exact value_of_isIdentifier h hid
  | action _ _ _ hkey => exact value_of_isKey h hkey

private theorem locatedAt_of_namedIn {item : Item} (h : item.NamedIn (scan source.text).tokens) :
    LocatedAt source item.statement.introduced (some ⟨source, item.span⟩) := by
  obtain ⟨before, t, after, htokens, hnames, hspan⟩ := h
  have ht : t ∈ (scan source.text).tokens := by
    rw [htokens]
    exact List.mem_append_right _ List.mem_cons_self
  obtain ⟨chars, hcovers⟩ := covers_of_mem_scan ht
  refine ⟨before, t, after, chars, htokens, hnames, value_of_names (shows_of_mem_scan ht) hnames,
    _, rfl, ?_⟩
  rw [hspan]
  exact hcovers.marks

/-- Every declaration of a schema that is read is located at the token that names it. -/
structure DeclarationsLocated (source : Source) (s : Schema) : Prop where
  commonTypes : ∀ ns key d, s.commonType? ns key = some d →
    LocatedAt source (.commonType ns key) d.location
  entityTypes : ∀ ns key d, s.entityType? ns key = some d →
    LocatedAt source (.entityType ns key) d.location
  actions : ∀ ns key d, s.action? ns key = some d →
    LocatedAt source (.action ns key) d.location

private theorem declarationsLocated_of_readUnder {exhausted : StackMap}
    (h : readUnder exhausted source = .ok s) : DeclarationsLocated source s := by
  obtain ⟨hasm, rest, hitems⟩ := itemsOf_of_readUnder h
  have hdrawn := allDrawn_assemble hasm
  constructor
  case commonTypes =>
    intro ns key d hd
    rw [Schema.commonType?_eq] at hd
    obtain ⟨span, hitem, hlocation⟩ := hdrawn.commonTypes ns key d hd
    rw [hlocation]
    exact locatedAt_of_namedIn ((namedIn_of_itemsOf hitems hitem).resolve_right nofun)
  case entityTypes =>
    intro ns key d hd
    rw [Schema.entityType?_eq] at hd
    obtain ⟨span, hitem, hlocation⟩ := hdrawn.entityTypes ns key d hd
    rw [hlocation]
    exact locatedAt_of_namedIn ((namedIn_of_itemsOf hitems hitem).resolve_right nofun)
  case actions =>
    intro ns key d hd
    rw [Schema.action?_eq] at hd
    obtain ⟨span, hitem, hlocation⟩ := hdrawn.actions ns key d hd
    rw [hlocation]
    exact locatedAt_of_namedIn ((namedIn_of_itemsOf hitems hitem).resolve_right nofun)

/-! ### Bytes that are no UTF-8 -/

private theorem readBytes_of_ne (file : String) {bytes : List UInt8}
    (h : ∀ text : String, text.toUTF8.data.toList ≠ bytes) :
    ∃ (e : Error) (start : String), readBytes file bytes = .error e ∧ e.cause = .notUtf8 ∧
      start.toUTF8.data.toList <+: bytes ∧
      (∀ other : String, other.toUTF8.data.toList <+: bytes →
        other.utf8ByteSize ≤ start.utf8ByteSize) ∧
      e.location.span.start = ⟨start.utf8ByteSize, start.toList.count '\n' + 1,
        (start.toList.rtakeWhile (· != '\n')).length + 1⟩ ∧
      e.location.snippet? = none := by
  have hdecode : Unicode.Utf8.decode? bytes = none := by
    cases hdecode : Unicode.Utf8.decode? bytes with
    | none => rfl
    | some cs =>
      refine absurd ?_ (h (String.ofList cs))
      rw [Unicode.Utf8.toUTF8_eq_encode, String.toList_ofList]
      exact Unicode.Utf8.encode_of_decode? hdecode
  obtain ⟨hstart, more, hmore⟩ := Unicode.Utf8.wellFormedStart_of_decode? hdecode
  generalize hcs : Unicode.Utf8.wellFormedStart bytes = cs at hstart hmore
  refine ⟨_, String.ofList cs, by rw [readBytes, hdecode], rfl, ?_, fun other hother ↦ ?_, ?_, ?_⟩
  · rwa [Unicode.Utf8.toUTF8_eq_encode, String.toList_ofList]
  · rw [Unicode.Utf8.toUTF8_eq_encode] at hother
    obtain ⟨more, hmore⟩ := Unicode.Utf8.prefix_wellFormedStart hother
    rw [hcs] at hmore
    rw [← hmore, byteSize_append, String.ofList_toList]
    exact Nat.le_add_right ..
  · rw [hcs, Position.start_after, String.toList_ofList]
  · rw [Location.snippet?, hcs, hmore, Position.start_after, String.toList_ofList,
      dropBytes_append]
    rfl

/-- Locations point at what they are about, wherever the stack is exhausted: errors at characters of
the source, declarations at the tokens that name them. Bytes of no text are reported where the
longest start of them that is one ends, with no snippet. -/
theorem read_located (exhausted : StackMap) (source : Source) (file : String)
    (bytes : List UInt8) :
    (∀ e, readUnder exhausted source = .error e →
      ∃ before part, e.location.Marks source before part) ∧
    (∀ s, readUnder exhausted source = .ok s → DeclarationsLocated source s) ∧
    ((∀ text : String, text.toUTF8.data.toList ≠ bytes) →
      ∃ (e : Error) (start : String), readBytes file bytes = .error e ∧ e.cause = .notUtf8 ∧
        start.toUTF8.data.toList <+: bytes ∧
        (∀ other : String, other.toUTF8.data.toList <+: bytes →
          other.utf8ByteSize ≤ start.utf8ByteSize) ∧
        e.location.span.start = ⟨start.utf8ByteSize, start.toList.count '\n' + 1,
          (start.toList.rtakeWhile (· != '\n')).length + 1⟩ ∧
        e.location.snippet? = none) :=
  ⟨fun _ ↦ marks_of_readUnder_eq_error, fun _ ↦ declarationsLocated_of_readUnder,
    readBytes_of_ne file⟩

/-- Two names of one declaration are both located, a name that is missing is marked, as is the name
of a block with which the stack is exhausted, and bytes that no text has are reported. -/
theorem read_located_pair :
    let nested : Source := ⟨"", "namespace A \x7b namespace B \x7b \x7d \x7d"⟩
    (∃ s, read ⟨"", "entity A, B;"⟩ = .ok s ∧ DeclarationsLocated ⟨"", "entity A, B;"⟩ s) ∧
    (∃ e before part, read ⟨"", "entity A, ;"⟩ = .error e ∧
      e.location.Marks ⟨"", "entity A, ;"⟩ before part) ∧
    (∃ e before part, readUnder (fun span ↦ span.start.offset = 24) nested = .error e ∧
      e.cause = .namespacesTooDeep ∧ e.location.Marks nested before part) ∧
    ∃ e, readBytes "" [0x61, 0xFF] = .error e ∧ e.location.snippet? = none := by
  intro nested
  have hs : (read ⟨"", "entity A, B;"⟩).toOption.isSome = true := by decide +kernel
  have he : (read ⟨"", "entity A, ;"⟩).toOption = none := by decide +kernel
  have hexhausted : ∃ e, readUnder (fun span ↦ span.start.offset = 24) nested = .error e ∧
      e.cause = .namespacesTooDeep := by
    have hcause : (match readUnder (fun span ↦ span.start.offset = 24) nested with
        | .error e => some e.cause
        | .ok _ => none) = some .namespacesTooDeep := by decide +kernel
    split at hcause
    · next e he => exact ⟨e, he, Option.some.inj hcause⟩
    · cases hcause
  have hdecode : Unicode.Utf8.decode? [0x61, 0xFF] = none := by decide
  have hbytes : ∀ text : String, text.toUTF8.data.toList ≠ [0x61, 0xFF] := by
    intro text htext
    rw [← htext, Unicode.Utf8.decode?_toUTF8] at hdecode
    cases hdecode
  obtain ⟨s, hs⟩ := Option.isSome_iff_exists.mp hs
  rw [Except.toOption_eq_some_iff] at hs
  obtain ⟨e, he⟩ := Except.toOption_eq_none_iff.mp he
  obtain ⟨before, part, hmarks⟩ := (read_located .ample _ "" []).1 e he
  obtain ⟨e'', hnested, hcause⟩ := hexhausted
  obtain ⟨before', part', hmarks'⟩ := (read_located _ _ "" []).1 e'' hnested
  obtain ⟨e', _, hread, _, _, _, _, hsnippet⟩ := (read_located .ample ⟨"", ""⟩ "" _).2.2 hbytes
  exact ⟨⟨s, hs, (read_located .ample _ "" []).2.1 s hs⟩, ⟨e, before, part, he, hmarks⟩,
    ⟨e'', before', part', hnested, hcause, hmarks'⟩, e', hread, hsnippet⟩

end PolicySchema.Text
