import Mathlib.Data.List.Basic
import DiagramText.Proofs.Flowchart.Line
import DiagramText.Proofs.Reader.Results

/-! Style lines. A line that stays in one piece is read as the style line that it is; what was declared
in one is written as it was declared and declared again, and the styles that an element has are set on the
element that is drawn for it. -/
namespace DiagramText.Flowchart

open Reader (Reads Refuses Stops)
open Text (EndsSolid IsWord)

variable {key value id : String} {cs : List Char}

/-! ### Declarations -/

/-- A key and a value that can be written into a style line. -/
structure IsWritten (key value : String) : Prop where
  named : key ≠ "" ∧ Text.trimmed key = key
  valued : value ≠ "" ∧ Text.trimmed value = value
  unbroken : ∀ c ∈ key.toList ++ value.toList, c ≠ '\n'

namespace IsWritten

theorem endsSolid (written : IsWritten key value) : EndsSolid (key.toList ++ ':' :: value.toList) := by
  have some : value.toList ≠ [] := mt String.toList_eq_nil_iff.1 written.valued.1
  have solid : EndsSolid value.toList := by
    intro c last
    rw [← Text.trim_of_trimmed written.valued.2] at last
    exact Text.not_isBlank_of_getLast?_trim last
  have whole := solid.append_of_ne_nil some (key.toList ++ [':'])
  rwa [List.append_assoc, List.singleton_append] at whole

theorem stops (written : IsWritten key value) (rest : List Char) :
    Stops Text.isInlineBlank (key.toList ++ rest) := by
  apply Reader.stops_append
  cases split : key.toList with
  | nil => exact absurd (String.toList_eq_nil_iff.1 split) written.named.1
  | cons c cs =>
    have tight := Reader.stops_tight written.named.2
    rw [split, Reader.stops_cons] at tight
    simp [tight]

end IsWritten

/-- A key and a value that stand in a style line, with a colon between and commas around them. -/
structure IsDeclared (key value : String) : Prop where
  named : key ≠ "" ∧ Text.trimmed key = key
  valued : value ≠ "" ∧ Text.trimmed value = value
  colon : ':' ∉ key.toList
  plain : ∀ c ∈ key.toList ++ value.toList, c ≠ ',' ∧ c ≠ '\n'

namespace IsDeclared

theorem declaration? (declared : IsDeclared key value) :
    declaration? (key.toList ++ ':' :: value.toList) = some (key, value) := by
  have kept {s : String} (named : s ≠ "" ∧ Text.trimmed s = s) :
      Reader.nonEmpty (String.ofList (Text.trim s.toList)) = some s := by
    rw [← Text.trimmed, named.2]
    exact if_neg named.1
  simp only [Flowchart.declaration?, Text.cut?_append declared.colon, Option.bind_eq_bind,
    Option.bind_some, kept declared.named, kept declared.valued, Option.pure_def]

/-- The text of a declaration has no commas. -/
theorem not_mem (declared : IsDeclared key value) : ',' ∉ key.toList ++ ':' :: value.toList := by
  intro comma
  have plain := declared.plain
  rw [List.forall_mem_append] at plain
  rcases List.mem_append.1 comma with first | second
  · exact (plain.1 _ first).1 rfl
  · exact (plain.2 ',' ((List.mem_cons.1 second).resolve_left (by decide))).1 rfl

theorem written (declared : IsDeclared key value) : IsWritten key value :=
  ⟨declared.named, declared.valued, fun c h => (declared.plain c h).2⟩

end IsDeclared

theorem IsWritten.isDeclared (written : IsWritten key value) (colon : ':' ∉ key.toList)
    (commas : ',' ∉ key.toList ∧ ',' ∉ value.toList) : IsDeclared key value where
  named := written.named
  valued := written.valued
  colon := colon
  plain c h := by
    refine ⟨?_, written.unbroken c h⟩
    rintro rfl
    exact (List.mem_append.1 h).elim commas.1 commas.2

/-- Whatever a declaration is read from, if it has no comma and no line break. -/
theorem isDeclared_of_declaration? (plain : ∀ c ∈ cs, c ≠ ',' ∧ c ≠ '\n')
    (read : declaration? cs = some (key, value)) : IsDeclared key value := by
  simp only [declaration?, Option.bind_eq_bind, Option.bind_eq_some_iff, Option.pure_def,
    Option.some.injEq, Prod.mk.injEq, Prod.exists] at read
  obtain ⟨before, after, cut, k, isKey, v, isValue, rfl, rfl⟩ := read
  obtain ⟨rfl, someKey⟩ := Reader.nonEmpty_eq_some isKey
  obtain ⟨rfl, someValue⟩ := Reader.nonEmpty_eq_some isValue
  rw [Text.cut?_eq_some cut] at plain
  refine ⟨⟨someKey, by simp [Text.trimmed]⟩, ⟨someValue, by simp [Text.trimmed]⟩, ?_, fun c h => plain c ?_⟩
  · rw [String.toList_ofList]
    exact fun h => Text.not_mem_of_cut? cut (Text.mem_of_mem_trim h)
  · rw [String.toList_ofList, String.toList_ofList, List.mem_append] at h
    rw [List.mem_append, List.mem_cons]
    exact h.imp Text.mem_of_mem_trim fun h => .inr (Text.mem_of_mem_trim h)

theorem isDeclared_of_mem_declarations {ds : List (String × String)} (unbroken : '\n' ∉ cs)
    (read : ds = declarations cs) : ∀ d ∈ ds, IsDeclared d.1 d.2 := by
  subst read
  intro d there
  obtain ⟨piece, among, found⟩ := List.mem_filterMap.1 there
  refine isDeclared_of_declaration? (fun c h => ⟨?_, ?_⟩) found
  · rintro rfl
    exact Text.not_mem_of_mem_pieces among h
  · rintro rfl
    exact unbroken (Text.mem_of_mem_pieces among h)

/-- A value has no character that the text has not. -/
theorem not_mem_of_mem_declarations {c : Char} (free : c ∉ cs) {d : String × String} (there : d ∈ declarations cs) :
    c ∉ d.2.toList := by
  obtain ⟨piece, among, read⟩ := List.mem_filterMap.1 there
  simp only [declaration?, Option.bind_eq_bind, Option.bind_eq_some_iff, Option.pure_def,
    Option.some.injEq, Prod.exists] at read
  obtain ⟨before, after, cut, k, -, v, isValue, rfl⟩ := read
  obtain ⟨rfl, -⟩ := Reader.nonEmpty_eq_some isValue
  rw [String.toList_ofList]
  intro inside
  have within : c ∈ piece := by
    rw [Text.cut?_eq_some cut]
    exact List.mem_append_right _ (List.mem_cons_of_mem _ (Text.mem_of_mem_trim inside))
  exact free (Text.mem_of_mem_pieces among within)

/-! ### Styles -/

/-- A style as lines declare it. -/
def IsStyle (style : Table Json) : Prop :=
  ∀ p ∈ style.entries, ∃ value, p.2 = .str value ∧ IsDeclared p.1 value

theorem isStyle_empty : IsStyle ∅ := by simp [IsStyle]

/-- What the line of a style declares. -/
def styleDeclarations (style : Table Json) : List (String × String) :=
  style.entries.map fun p => (p.1, styleValue p.2)

theorem IsStyle.declared {style : Table Json} (isStyle : IsStyle style) :
    ∀ d ∈ styleDeclarations style, IsDeclared d.1 d.2 := by
  intro d there
  obtain ⟨p, among, rfl⟩ := List.mem_map.1 there
  obtain ⟨value, same, declared⟩ := isStyle p among
  rwa [same]

/-- Set again, the declarations of a style are the style. -/
theorem IsStyle.setStyles {style : Table Json} (isStyle : IsStyle style) {e : Element} (plain : e.style = ∅) :
    Draft.setStyles (styleDeclarations style) e = { e with style } := by
  have folded (ds : List (String × String)) (e : Element) : Draft.setStyles ds e =
      { e with style := ds.foldl (fun t d => t.insert d.1 (.str d.2)) e.style } := by
    unfold Draft.setStyles
    induction ds generalizing e with
    | nil => rfl
    | cons d ds ih => exact ih _
  have entries : (styleDeclarations style).map (fun d => (d.1, Json.str d.2)) = style.entries := by
    rw [styleDeclarations, List.map_map]
    conv => rhs; rw [← List.map_id style.entries]
    apply List.map_congr_left
    rintro ⟨k, v⟩ among
    obtain ⟨value, rfl, -⟩ := isStyle _ among
    rfl
  have again : (styleDeclarations style).foldl (fun t d => t.insert d.1 (.str d.2)) ∅ = style := by
    conv => rhs; rw [← Table.ofList_entries style, ← entries, Table.ofList, List.foldl_map]
  rw [folded, plain, again]

/-! ### Style lines -/

/-- The text of some declarations. -/
def declarationChars (ds : List (String × String)) : List Char :=
  [','].intercalate (ds.map fun d => d.1.toList ++ ':' :: d.2.toList)

theorem toList_styleText (e : Element) : (styleText e).toList =
    "style".toList ++ ' ' :: (e.id.toList ++ ' ' :: declarationChars (styleDeclarations e.style)) := by
  have joined : (",".intercalate (e.style.entries.map fun p => p.1 ++ ":" ++ styleValue p.2)).toList =
      declarationChars (styleDeclarations e.style) := by
    rw [declarationChars, styleDeclarations, String.toList_intercalate, List.map_map, List.map_map]
    congr 1
    apply List.map_congr_left
    intro p _
    simp
  rw [styleText]
  simp only [String.toList_append, joined]
  simp

variable {ds : List (String × String)}

theorem declarations_declarationChars (declared : ∀ d ∈ ds, IsDeclared d.1 d.2) :
    declarations (declarationChars ds) = ds := by
  rcases eq_or_ne ds [] with rfl | some
  · rfl
  have free : ∀ p ∈ ds.map fun d => d.1.toList ++ ':' :: d.2.toList, ',' ∉ p :=
    List.forall_mem_map.2 fun d h => (declared d h).not_mem
  rw [declarations, declarationChars, Text.pieces_intercalate (by simpa using some) free,
    List.filterMap_map]
  have each : ∀ d ∈ ds, (declaration? ∘ fun d : String × String => d.1.toList ++ ':' :: d.2.toList) d =
      Option.some d := fun d h => (declared d h).declaration?
  rw [List.filterMap_congr each, List.filterMap_some]

/-- Declarations have the characters of their keys and values, with colons and commas between. -/
theorem not_mem_declarationChars {c : Char} (other : c ≠ ':' ∧ c ≠ ',')
    (free : ∀ d ∈ ds, c ∉ d.1.toList ∧ c ∉ d.2.toList) : c ∉ declarationChars ds := by
  have apart : ∀ x ∈ declarationChars ds, x ≠ c := by
    refine Text.forall_mem_intercalate (by simpa using other.2.symm) (List.forall_mem_map.2 fun d there => ?_)
    rw [List.forall_mem_append, List.forall_mem_cons]
    exact ⟨List.forall_mem_ne'.2 (free d there).1, other.1.symm, List.forall_mem_ne'.2 (free d there).2⟩
  exact List.forall_mem_ne'.1 apart

theorem colon_mem_declarationChars (some : ds ≠ []) : ':' ∈ declarationChars ds := by
  cases ds with
  | nil => exact absurd rfl some
  | cons d ds =>
    cases ds with
    | nil =>
      rw [declarationChars, List.map_singleton, List.intercalate_singleton]
      simp
    | cons e ds =>
      rw [declarationChars, List.map_cons, List.map_cons, List.intercalate_cons_cons]
      simp

theorem reads_styledIds (word : IsWord id) (cs : List Char) :
    Reads (Reader.sepBy1 Reader.identifier (Reader.token ",")) (id.toList ++ ' ' :: cs) [id] (' ' :: cs) := by
  have stop : Refuses (Reader.token "," *> Reader.identifier) (' ' :: cs) :=
    (Reader.refuses_token (by simp)).seqRight _
  exact (Reader.reads_identifier word (by simp; decide)).bind
    ((Reader.reads_many_none stop).bind (Reads.pure [id] _))

/-- However it goes on, what starts like a style line is one. -/
theorem exists_reads_style (word : IsWord id) (cs : List Char) : ∃ ds,
    Reads style ("style".toList ++ ' ' :: (id.toList ++ ' ' :: cs)) (.style [id] ds) [] := by
  obtain ⟨rest, blanks⟩ := Reader.exists_reads_space1 cs
  exact ⟨declarations rest, (Reader.reads_token "style" _).bind ((Reader.reads_space1 (word.stops _)).bind
    ((reads_styledIds word cs).bind (blanks.bind ((Reader.reads_rest _).bind (Reads.pure _ [])))))⟩

theorem reads_statement_style {cs : List Char} {s : Statement} (read : Reads style ("style".toList ++ cs) s []) :
    Reads statement ("style".toList ++ cs) s [] := by
  have noSubgraph : Refuses subgraph ("style".toList ++ cs) := Refuses.bind (Reader.refuses_token (by simp)) _
  have noEnd : Refuses (Reader.token "end" *> Reader.atEnd *> pure Statement.close) ("style".toList ++ cs) :=
    ((Reader.refuses_token (by simp)).seqRight _).seqRight _
  exact noSubgraph.orElse (noEnd.orElse read.orElse)

section

variable (written : ∀ d ∈ ds, IsWritten d.1 d.2)

include written

/-- Declarations start and end in no blank. -/
theorem solid_declarationChars (some : ds ≠ []) : declarationChars ds ≠ [] ∧
    EndsSolid (declarationChars ds) ∧ Stops Text.isInlineBlank (declarationChars ds) := by
  induction ds with
  | nil => exact absurd rfl some
  | cons d ds ih =>
    rw [List.forall_mem_cons] at written
    cases ds with
    | nil =>
      rw [declarationChars, List.map_singleton, List.intercalate_singleton]
      exact ⟨by simp, written.1.endsSolid, written.1.stops _⟩
    | cons e ds =>
      obtain ⟨more, solid, -⟩ := ih written.2 (List.cons_ne_nil _ _)
      have split : declarationChars (d :: e :: ds) =
          (d.1.toList ++ ':' :: d.2.toList ++ [',']) ++ declarationChars (e :: ds) := by
        rw [declarationChars, List.map_cons, List.map_cons, List.intercalate_cons_cons]
        rfl
      rw [split]
      refine ⟨by simp, solid.append_of_ne_nil more _, ?_⟩
      rw [List.append_assoc, List.append_assoc]
      exact written.1.stops _

theorem reads_style (word : IsWord id) (some : ds ≠ []) :
    Reads style ("style".toList ++ ' ' :: (id.toList ++ ' ' :: declarationChars ds))
      (.style [id] (declarations (declarationChars ds))) [] :=
  (Reader.reads_token "style" _).bind ((Reader.reads_space1 (word.stops _)).bind ((reads_styledIds word _).bind
    ((Reader.reads_space1 (solid_declarationChars written some).2.2).bind
      ((Reader.reads_rest _).bind (Reads.pure _ [])))))

end

/-- A style whose keys and values can be written into a style line. -/
def IsWrittenStyle (style : Table Json) : Prop := ∀ d ∈ styleDeclarations style, IsWritten d.1 d.2

theorem IsStyle.written {style : Table Json} (isStyle : IsStyle style) : IsWrittenStyle style :=
  fun d there => (isStyle.declared d there).written

theorem IsWrittenStyle.unbroken {style : Table Json} (written : IsWrittenStyle style) :
    '\n' ∉ declarationChars (styleDeclarations style) := by
  refine not_mem_declarationChars (by decide) fun d there => ?_
  have unbroken := (written d there).unbroken
  rw [List.forall_mem_append] at unbroken
  exact ⟨fun h => unbroken.1 _ h rfl, fun h => unbroken.2 _ h rfl⟩

/-- What the line of a style is read as. -/
def readDeclarations (style : Table Json) : List (String × String) :=
  declarations (declarationChars (styleDeclarations style))

theorem styleDeclarations_ne_nil {style : Table Json} (some : style.isEmpty = false) :
    styleDeclarations style ≠ [] := by
  simpa [styleDeclarations, Table.isEmpty] using some

theorem isLine_styleText {e : Element} (word : IsWord e.id) (written : IsWrittenStyle e.style)
    (some : e.style.isEmpty = false) : Source.IsLine (styleText e) := by
  obtain ⟨more, solid, -⟩ := solid_declarationChars written (styleDeclarations_ne_nil some)
  refine isLine_of_ends ?_ ?_ ?_ <;> rw [toList_styleText]
  · exact ⟨'s', _, rfl, by decide⟩
  · have front := solid.append_of_ne_nil more ("style".toList ++ ' ' :: (e.id.toList ++ [' ']))
    simpa using front
  · simp only [List.mem_append, List.mem_cons, not_or]
    exact ⟨by decide, by decide, word.unbroken, by decide, written.unbroken⟩

/-- The line of a style, if no semicolon outside quotes takes it apart. -/
theorem says_styleText_any {e : Element} (word : IsWord e.id) (written : IsWrittenStyle e.style)
    (some : e.style.isEmpty = false)
    (whole : Text.unquotedPieces ';' false (styleText e).toList = [(styleText e).toList]) :
    Says (styleText e) (.style [e.id] (readDeclarations e.style)) where
  toIsPiece := ⟨isLine_styleText word written some, whole⟩
  reads := by
    rw [toList_styleText]
    exact reads_statement_style (reads_style written word (styleDeclarations_ne_nil some))

/-! ### Any style -/

/-- A line that is not taken apart: no break in it, and no semicolon outside quotes. -/
structure IsUncut (line : String) : Prop where
  unbroken : '\n' ∉ line.toList
  whole : Text.unquotedPieces ';' false line.toList = [line.toList]

instance (line : String) : Decidable (IsUncut line) :=
  decidable_of_iff ('\n' ∉ line.toList ∧ Text.unquotedPieces ';' false line.toList = [line.toList])
    ⟨fun ⟨unbroken, whole⟩ => ⟨unbroken, whole⟩, fun uncut => ⟨uncut.unbroken, uncut.whole⟩⟩

section

variable {e : Element} (some : e.style.isEmpty = false)

include some

/-- Blanks are trimmed off the line of a style at its end alone, and not all behind the id. -/
theorem exists_trim_styleText : ∃ cs, Text.trim (styleText e).toList =
    "style".toList ++ ' ' :: (e.id.toList ++ ' ' :: cs) ∧ Text.trim (styleText e).toList <+: (styleText e).toList := by
  let body := declarationChars (styleDeclarations e.style)
  obtain ⟨before, after, split, -, blank⟩ := Text.exists_trim body
  have more : Text.trim body ≠ [] := by
    intro none
    have colon := Text.trim_eq_nil_iff.1 none ':' (colon_mem_declarationChars (styleDeclarations_ne_nil some))
    exact absurd colon (by decide)
  have line := toList_styleText e
  rw [show declarationChars (styleDeclarations e.style) = body from rfl, split] at line
  have whole : (styleText e).toList =
      's' :: ("tyle".toList ++ ' ' :: (e.id.toList ++ ' ' :: before) ++ Text.trim body) ++ after := by simp [line]
  have trimmed : Text.trim (styleText e).toList =
      's' :: ("tyle".toList ++ ' ' :: (e.id.toList ++ ' ' :: before) ++ Text.trim body) := by
    rw [whole, Text.trim_append_right blank, Text.trim_cons_append 's' _ (by decide) more (Text.trim_trim body)]
  exact ⟨before ++ Text.trim body, by simp [trimmed], after, by rw [trimmed, ← whole]⟩

theorem isStatement_styleText (uncut : IsUncut (styleText e)) : Source.IsStatement (styleText e).toList := by
  obtain ⟨cs, split, -⟩ := exists_trim_styleText some
  refine ⟨uncut.unbroken, ?_, ?_⟩ <;> rw [split]
  · exact List.cons_ne_nil _ _
  · intro comment
    exact absurd (List.cons_prefix_cons.1 comment).1 (by decide)

/-- A style line that is not taken apart is a style, whatever is in it. -/
theorem exists_readLine_styleText (word : IsWord e.id) (uncut : IsUncut (styleText e)) (now : Instant) :
    ∃ ds, ∀ d : Draft, d.readLine now (Text.trimmed (styleText e)) = d.apply now (.style [e.id] ds) := by
  obtain ⟨cs, split, blanks, rejoined⟩ := exists_trim_styleText some
  obtain ⟨ds, read⟩ := exists_reads_style word cs
  have said : Statement.ofText? (Text.trim (styleText e).toList) = .some (.style [e.id] ds) := by
    rw [Statement.ofText?, Text.trim_trim, split]
    exact Reader.whole?_of_reads (reads_statement_style read)
  have whole : Text.unquotedPieces ';' false (Text.trim (styleText e).toList) = [Text.trim (styleText e).toList] :=
    Text.unquotedPieces_left (rejoined.symm ▸ uncut.whole)
  have pieces : statementTexts (Text.trim (styleText e).toList) = [Text.trim (styleText e).toList] := by
    rw [statementTexts, whole, List.map_singleton, Text.trim_trim]
    exact List.filter_cons_of_pos (by simp [split])
  refine ⟨ds, fun d => ?_⟩
  rw [Draft.readLine, Text.toList_trimmed, pieces, List.foldl_cons, List.foldl_nil, Draft.readText, said]

end

theorem IsStyle.readDeclarations {style : Table Json} (isStyle : IsStyle style) :
    readDeclarations style = styleDeclarations style := declarations_declarationChars isStyle.declared

/-- What was declared is declared again. -/
theorem says_styleText {e : Element} (word : IsWord e.id) (isStyle : IsStyle e.style)
    (some : e.style.isEmpty = false)
    (whole : Text.unquotedPieces ';' false (styleText e).toList = [(styleText e).toList]) :
    Says (styleText e) (.style [e.id] (styleDeclarations e.style)) := by
  have said := says_styleText_any word isStyle.written some whole
  rwa [isStyle.readDeclarations] at said

end DiagramText.Flowchart
