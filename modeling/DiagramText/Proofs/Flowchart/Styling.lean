import DiagramText.Proofs.Flowchart.Grouping
import DiagramText.Proofs.Flowchart.RoundTrip
import DiagramText.Proofs.Outline.Reaching

/-! Styles in flowchart source. Their lines come last, one for each element that has a style, and no other line
sets any. So an element comes back with its style as it was, if no value in it has a comma and no style line is
taken apart; where a value has a comma, the style that comes back is another. -/
namespace DiagramText.Flowchart

open Outline (Item)
open Reader (Refuses Yields)
open Text (IsWord)

variable {now : Instant} {g : Graph} {e : Element} {line : String} {P : String → String → Prop}

/-! ### Statements that set styles -/

/-- What a statement sets has a property, key by key. -/
def Statement.Sets (P : String → String → Prop) : Statement → Prop
  | .style _ declarations => ∀ d ∈ declarations, P d.1 d.2
  | .chain _ _ | .node _ | .subgraph _ _ | .close | .direction _ => True

/-- Only style lines set styles. -/
theorem sets_of_statement {cs rest : List Char} {s : Statement} (read : statement cs = some (s, rest))
    (ofStyle : ∀ s rest, style cs = some (s, rest) → s.Sets P) : s.Sets P := by
  obtain ⟨r, among, found⟩ := Reader.firstOf_eq_some read
  simp only [List.mem_cons, List.not_mem_nil, or_false] at among
  rcases among with rfl | rfl | rfl | rfl | rfl | rfl
  · have group : Yields subgraph (Statement.Sets P) := (Reader.yields_any _).bind fun _ _ =>
      (Reader.yields_any _).bind fun _ _ => (Reader.yields_any _).bind fun _ _ => Reader.yields_pure trivial
    exact group _ _ _ found
  · have close : Yields (Reader.token "end" *> Reader.atEnd *> pure Statement.close) (Statement.Sets P) :=
      Reader.Yields.seqRight _ (Reader.yields_pure trivial)
    exact close _ _ _ found
  · exact ofStyle _ _ found
  · have direction : Yields directionLine (Statement.Sets P) := (Reader.yields_any _).bind fun _ _ =>
      (Reader.yields_any _).bind fun _ _ => (Reader.yields_any _).bind fun _ _ =>
        (Reader.yields_any _).bind fun _ _ => Reader.yields_pure trivial
    exact direction _ _ _ found
  · have chain : Yields chain (Statement.Sets P) := (Reader.yields_any _).bind fun _ _ =>
      (Reader.yields_any _).bind fun _ _ => (Reader.yields_any _).bind fun _ _ => Reader.yields_pure trivial
    exact chain _ _ _ found
  · have node : Yields (do let ref ← nodeRef; Reader.atEnd; pure (Statement.node ref)) (Statement.Sets P) :=
      (Reader.yields_any _).bind fun _ _ => (Reader.yields_any _).bind fun _ _ => Reader.yields_pure trivial
    exact node _ _ _ found

theorem mem_statementsOf {lines : List String} {s : Statement} :
    s ∈ statementsOf lines ↔ ∃ line ∈ lines, s ∈ statementsOf [line] := by
  simp only [statementsOf, List.mem_filterMap, List.mem_flatMap, List.mem_singleton, exists_eq_left]
  grind

theorem IsPiece.mem_statementsOf (isPiece : IsPiece line) {s : Statement} :
    s ∈ statementsOf [line] ↔ statement.whole? line.toList = some s := by
  rw [statementsOf, List.flatMap_singleton, isPiece.statementTexts]
  simp [Statement.ofText?, isPiece.tight]

theorem Says.mem_statementsOf {s : Statement} (said : Says line s) {lines : List String} (there : line ∈ lines) :
    s ∈ statementsOf lines :=
  Flowchart.mem_statementsOf.2
    ⟨line, there, said.toIsPiece.mem_statementsOf.2 (Reader.whole?_of_reads said.reads)⟩

/-! ### Lines that set none -/

/-- A line in one piece that is no style line. -/
structure IsFramePiece (line : String) : Prop extends IsPiece line where
  refused : Refuses style line.toList

theorem IsFramePiece.sets (plain : IsFramePiece line) : ∀ s ∈ statementsOf [line], s.Sets P := by
  intro s said
  refine sets_of_statement (Reader.whole?_eq_some (plain.mem_statementsOf.1 said)) fun t rest read => ?_
  rw [plain.refused] at read
  cases read

theorem isFramePiece_nodeText (word : IsWord e.id) : IsFramePiece (nodeText e) where
  toIsPiece := isPiece_nodeText word
  refused := by
    rw [toList_nodeText]
    exact refuses_style word (follows_opening _ _)

theorem isFramePiece_groupText (word : IsWord e.id) : IsFramePiece (groupText e) where
  toIsPiece := isPiece_groupText word
  refused := by
    rw [toList_groupText]
    exact Refuses.bind (Reader.refuses_token (by simp)) _

theorem isFramePiece_edgeText {c : Connection} (source : IsWord c.source) (target : IsWord c.target) :
    IsFramePiece (edgeText c) where
  toIsPiece := isPiece_edgeText source target
  refused := by
    cases labelled : c.hasLabel with
    | false =>
      rw [toList_edgeText_bare labelled]
      exact refuses_style source (follows_arrow _ _)
    | true =>
      rw [toList_edgeText_labelled labelled]
      exact refuses_style source (follows_arrow _ _)

theorem isFramePiece_end : IsFramePiece "end" := ⟨says_end.toIsPiece, rfl⟩

/-! ### Styles in a draft -/

/-- All styles in a graph are of texts of which something is known. -/
def StylesHave (P : String → String → Prop) (g : Graph) : Prop :=
  g.Contents (fun e => HasValues P e.style) fun _ => True

theorem hasValues_empty : HasValues P ∅ := by simp [HasValues]

theorem HasValues.eq_empty {style : Table Json} (none : HasValues (fun _ _ => False) style) : style = ∅ := by
  apply Table.ext
  rw [Table.entries_empty, List.eq_nil_iff_forall_not_mem]
  intro p there
  obtain ⟨-, -, absurd⟩ := none p there
  exact absurd

namespace Draft

variable {d : Draft}

theorem stylesHave_enlist (before : StylesHave P d.graph) (id : String) : StylesHave P (d.enlist id).graph := by
  unfold enlist
  split
  · exact before
  · exact before.modifyElement fun e own => Element.append_style (e := e) ▸ own

theorem stylesHave_declare (before : StylesHave P d.graph) (ref : NodeRef) :
    StylesHave P (d.declare now ref).graph := by
  have described : StylesHave P ((d.graph.ensure ref.id (newNode now ref.id)).modifyElement ref.id (describe ref)) :=
    (before.ensure fun _ => hasValues_empty).modifyElement fun e own => (style_describe ref e).symm ▸ own
  unfold declare
  dsimp only
  split
  · exact described
  · exact stylesHave_enlist (d := ⟨_, d.groups⟩) described ref.id

theorem stylesHave_addLinks (before : StylesHave P d.graph) (source : String) (links : List Link) :
    StylesHave P (addLinks now d source links).graph := by
  induction links generalizing d source with
  | nil => exact before
  | cons l links ih =>
    have linked : StylesHave P ((d.declare now l.target).graph.connect now source l.target.id l.arrow.key
        (l.label.getD "")) := (stylesHave_declare before l.target).connect fun _ => trivial
    exact ih (d := ⟨_, _⟩) linked l.target.id

theorem stylesHave_openGroup (before : StylesHave P d.graph) (id label : String) :
    StylesHave P (d.openGroup now id label).graph := by
  unfold openGroup
  dsimp only
  generalize (if id = "" then _ else id) = name
  by_cases there : d.graph.hasElement name
  · rw [if_pos there]
    exact before
  · rw [if_neg there]
    have made : HasValues P (newGroup now name label).style := hasValues_empty
    exact stylesHave_enlist (d := ⟨_, d.groups⟩) (before.addElement made) name

theorem stylesHave_restyle {declarations : List (String × String)} (set : ∀ d ∈ declarations, P d.1 d.2)
    (before : StylesHave P g) (ids : List String) :
    StylesHave P (ids.foldl (fun g id => g.modifyElement id (setStyles declarations)) g) := by
  induction ids generalizing g with
  | nil => exact before
  | cons id ids ih => exact ih (before.modifyElement fun _ => hasValues_setStyles set)

/-- A statement leaves styles as they are, but for what it sets. -/
theorem stylesHave_apply (before : StylesHave P d.graph) {s : Statement} (sets : s.Sets P) :
    StylesHave P (d.apply now s).graph := by
  cases s with
  | node ref => exact stylesHave_declare before ref
  | chain head links => exact stylesHave_addLinks (stylesHave_declare before head) head.id links
  | subgraph id label => exact stylesHave_openGroup before id label
  | close => exact before
  | style ids declarations => exact stylesHave_restyle sets before ids
  | direction => exact before

theorem stylesHave_foldl (before : StylesHave P d.graph) {statements : List Statement}
    (sets : ∀ s ∈ statements, s.Sets P) : StylesHave P (statements.foldl (apply now) d).graph := by
  induction statements generalizing d with
  | nil => exact before
  | cons s statements ih =>
    rw [List.forall_mem_cons] at sets
    exact ih (stylesHave_apply before sets.1) sets.2

end Draft

theorem stylesHave_drafted {statements : List Statement} (sets : ∀ s ∈ statements, s.Sets P) :
    StylesHave P (drafted now statements).graph := Draft.stylesHave_foldl (d := .empty) Graph.contents_empty sets

/-- What any statement of a run mentions is there in the end. -/
theorem hasElement_drafted {statements : List Statement} {s : Statement} (said : s ∈ statements) {id : String}
    (mentioned : ∀ d, id ∈ s.mentions d) : (drafted now statements).graph.hasElement id := by
  obtain ⟨before, after, rfl⟩ := List.append_of_mem said
  have named : id ∈ ((drafted now before).apply now s).graph.elements.keys :=
    Draft.mem_keys_apply.2 (.inr (mentioned (drafted now before)))
  obtain ⟨x, found⟩ := Option.isSome_iff_exists.1 (Table.contains_iff.2 named)
  rw [drafted_concat]
  obtain ⟨y, there, -⟩ := Draft.retains_foldl now _ after id x found
  exact Option.isSome_iff_exists.2 ⟨y, there⟩

/-! ### Styles that can be written -/

/-- No value of a style has a character. -/
def IsFreeOf (c : Char) (style : Table Json) : Prop := ∀ p ∈ style.entries, c ∉ (styleValue p.2).toList

instance (c : Char) (style : Table Json) : Decidable (IsFreeOf c style) :=
  inferInstanceAs (Decidable (∀ p ∈ style.entries, _))

theorem HasValues.isFreeOf {c : Char} {style : Table Json} (has : HasValues P style)
    (free : ∀ key value, P key value → c ∉ value.toList) : IsFreeOf c style := by
  intro p there
  obtain ⟨value, same, known⟩ := has p there
  rw [same]
  exact free p.1 value known

/-- Letters, digits and dashes. -/
structure IsStyleKey (key : String) : Prop where
  some : key ≠ ""
  chars : ∀ c ∈ key.toList, Text.isAlphanumeric c ∨ c = '-'

/-- A text on one line, with no blanks around it. -/
structure IsStyleValue (value : String) : Prop where
  some : value ≠ ""
  tight : Text.trimmed value = value
  unbroken : '\n' ∉ value.toList

instance (key : String) : Decidable (IsStyleKey key) :=
  decidable_of_iff (key ≠ "" ∧ key.toList.all fun c => Text.isAlphanumeric c || c == '-')
    ⟨fun h => ⟨h.1, by simpa using h.2⟩, fun h => ⟨h.some, by simpa using h.chars⟩⟩

instance (value : String) : Decidable (IsStyleValue value) :=
  decidable_of_iff (value ≠ "" ∧ Text.trimmed value = value ∧ '\n' ∉ value.toList)
    ⟨fun h => ⟨h.1, h.2.1, h.2.2⟩, fun h => ⟨h.some, h.tight, h.unbroken⟩⟩

/-- A style of texts under such keys. -/
def IsPlainStyle (style : Table Json) : Prop :=
  HasValues (fun key value => IsStyleKey key ∧ IsStyleValue value) style

instance (style : Table Json) : Decidable (IsPlainStyle style) :=
  inferInstanceAs (Decidable (HasValues _ style))

theorem IsStyleKey.not_mem {key : String} (isKey : IsStyleKey key) {c : Char} (other : Text.isAlphanumeric c = false)
    (dash : c ≠ '-') : c ∉ key.toList := by
  intro h
  rcases isKey.chars c h with letter | same
  · rw [other] at letter
    cases letter
  · exact dash same

theorem IsStyleKey.trimmed {key : String} (isKey : IsStyleKey key) : Text.trimmed key = key := by
  have solid : ∀ c ∈ key.toList, Text.isBlank c = false := by
    intro c h
    rcases isKey.chars c h with letter | rfl
    · exact Text.not_isBlank_of_isWordChar (by rw [Text.isWordChar, letter, Bool.true_or])
    · decide
  have tight : Text.trim key.toList = key.toList :=
    Text.trim_eq_self (fun c h => solid c (List.mem_of_mem_head? h)) fun c h => solid c (List.mem_of_getLast? h)
  rw [Text.trimmed, tight, String.ofList_toList]

theorem IsStyleKey.isWritten {key value : String} (isKey : IsStyleKey key) (isValue : IsStyleValue value) :
    IsWritten key value where
  named := ⟨isKey.some, isKey.trimmed⟩
  valued := ⟨isValue.some, isValue.tight⟩
  unbroken := by
    have unbroken : '\n' ∉ key.toList := isKey.not_mem (by decide) (by decide)
    exact List.forall_mem_append.2 ⟨List.forall_mem_ne'.2 unbroken, List.forall_mem_ne'.2 isValue.unbroken⟩

namespace IsPlainStyle

variable {style : Table Json} (plain : IsPlainStyle style)

include plain

theorem declared : ∀ d ∈ styleDeclarations style, IsStyleKey d.1 ∧ IsStyleValue d.2 := by
  intro d there
  obtain ⟨p, among, rfl⟩ := List.mem_map.1 there
  obtain ⟨value, same, known⟩ := plain p among
  rwa [same]

theorem written : IsWrittenStyle style :=
  fun d there => (plain.declared d there).1.isWritten (plain.declared d there).2

/-- Of styles that can be written, those without commas can be read. -/
theorem isStyle (free : IsFreeOf ',' style) : IsStyle style := by
  intro p there
  obtain ⟨value, same, isKey, isValue⟩ := plain p there
  have comma : ',' ∉ value.toList := by
    have none := free p there
    rwa [same] at none
  refine ⟨value, same, (isKey.isWritten isValue).isDeclared ?_ ⟨?_, comma⟩⟩
  · exact isKey.not_mem (by decide) (by decide)
  · exact isKey.not_mem (by decide) (by decide)

end IsPlainStyle

/-! ### Style lines -/

theorem quoteless_styleText (word : IsWord e.id) (plain : IsPlainStyle e.style) (free : IsFreeOf '"' e.style) :
    '"' ∉ (styleText e).toList := by
  have declared : '"' ∉ declarationChars (styleDeclarations e.style) := by
    refine not_mem_declarationChars (by decide) fun d there => ⟨?_, ?_⟩
    · exact (plain.declared d there).1.not_mem (by decide) (by decide)
    · obtain ⟨p, among, rfl⟩ := List.mem_map.1 there
      exact free p among
  rw [toList_styleText]
  simp only [List.mem_append, List.mem_cons, not_or]
  exact ⟨by decide, by decide, fun h => absurd (word.chars _ h) (by decide), by decide, declared⟩

/-- Without quotes every semicolon ends a statement, and none is left in what is set. -/
theorem sets_of_quoteless (quoteless : '"' ∉ line.toList) :
    ∀ s ∈ statementsOf [line], s.Sets fun _ value => ';' ∉ value.toList := by
  intro s said
  rw [statementsOf, List.flatMap_singleton] at said
  obtain ⟨text, among, read⟩ := List.mem_filterMap.1 said
  obtain ⟨piece, found, rfl⟩ := List.mem_map.1 (List.mem_filter.1 among).1
  rw [Text.unquotedPieces_eq_pieces quoteless] at found
  have free : ';' ∉ Text.trim (Text.trim piece) :=
    fun h => Text.not_mem_of_mem_pieces found (Text.mem_of_mem_trim (Text.mem_of_mem_trim h))
  have values : Reader.YieldsWithout ';' style (Statement.Sets fun _ value => ';' ∉ value.toList) :=
    yieldsWithout_style fun _ _ none _ there => not_mem_of_mem_declarations none there
  exact sets_of_statement (Reader.whole?_eq_some read) fun t rest styled => (values _ t rest free styled).1

/-- What is read of a style is the style again, if no value has a comma. -/
theorem style_setStyles (plain : IsPlainStyle e.style) (free : IsFreeOf ',' e.style) {x : Element}
    (bare : x.style = ∅) : (Draft.setStyles (readDeclarations e.style) x).style = e.style := by
  have isStyle := plain.isStyle free
  rw [isStyle.readDeclarations, isStyle.setStyles bare]

/-! ### The whole diagram -/

/-- A graph whose ids are words, and whose styles are of plain texts. -/
structure IsDecorated (g : Graph) : Prop where
  distinct : (g.elements.values.map (·.id)).Nodup
  words : ∀ e ∈ g.elements.values, IsWord e.id
  ends : ∀ c ∈ g.connections.values, IsWord c.source ∧ c.source ≠ "subgraph" ∧ IsWord c.target
  styles : ∀ e ∈ g.elements.values, IsPlainStyle e.style

/-- The lines of the outline and of the edges. -/
def frameTexts (g : Graph) : List String :=
  (Outline.ofElements g.elements fun _ => false).map itemText ++ g.connections.values.map edgeText

/-- The lines of the frame, and then those of the styles. -/
def decoratedTexts (g : Graph) : List String := frameTexts g ++ (styled g.elements.values).map styleText

/-- An element that a line names, with its label or at the end of an edge. -/
def IsMentioned (g : Graph) (e : Element) : Prop :=
  (e ∈ Outline.shown g.elements (fun _ => false) ∧ Keeps e.label) ∨
    ∃ c ∈ g.connections.values, e.id = c.source ∨ e.id = c.target

namespace IsDecorated

variable (decorated : IsDecorated g)

include decorated

theorem isFramePiece_frame : ∀ line ∈ frameTexts g, IsFramePiece line := by
  rw [frameTexts, List.forall_mem_append, List.forall_mem_map, List.forall_mem_map]
  refine ⟨?_, fun c there => isFramePiece_edgeText (decorated.ends c there).1 (decorated.ends c there).2.2⟩
  exact Outline.forall_ofElements (fun e there _ => isFramePiece_nodeText (decorated.words e there))
    (fun e there _ => isFramePiece_groupText (decorated.words e there)) (fun _ => isFramePiece_end) _

theorem isLine_styles : ∀ e ∈ styled g.elements.values, Source.IsLine (styleText e) := by
  intro e there
  obtain ⟨among, some⟩ := mem_of_mem_styled there
  exact isLine_styleText (decorated.words e among) (decorated.styles e among).written some

theorem isLine_decoratedTexts : ∀ line ∈ decoratedTexts g, Source.IsLine line :=
  List.forall_mem_append.2 ⟨fun line there => (decorated.isFramePiece_frame line there).toIsLine,
    List.forall_mem_map.2 decorated.isLine_styles⟩

theorem lines : (∀ line ∈ sourceLines g, Source.IsStatement line.toList) ∧
    (sourceLines g).map Text.trimmed = decoratedTexts g := by
  have frame := decorated.isFramePiece_frame
  rw [frameTexts, List.forall_mem_append, List.forall_mem_map, List.forall_mem_map] at frame
  exact lines_of_sourceLines (fun item there => (frame.1 item there).toIsLine)
    (fun c there => (frame.2 c there).toIsLine) decorated.isLine_styles

/-- Styles have what style lines set. -/
theorem stylesHave_read (now : Instant)
    (sets : ∀ e ∈ styled g.elements.values, ∀ s ∈ statementsOf [styleText e], s.Sets P) :
    StylesHave P (read now (decoratedTexts g)) := by
  rw [read_eq_drafted]
  refine stylesHave_drafted fun s said => ?_
  obtain ⟨line, there, said⟩ := mem_statementsOf.1 said
  rcases List.mem_append.1 there with frame | style
  · exact (decorated.isFramePiece_frame line frame).sets s said
  · obtain ⟨e, among, rfl⟩ := List.mem_map.1 style
    exact sets e among s said

theorem hasElement_read (now : Instant) (there : e ∈ g.elements.values) (named : IsMentioned g e) :
    (read now (decoratedTexts g)).hasElement e.id := by
  have word := decorated.words e there
  rw [read_eq_drafted]
  rcases named with ⟨shown, keeps⟩ | ⟨c, among, which⟩
  · obtain ⟨item, listed, same⟩ := List.mem_filterMap.1 shown
    have inside : itemText item ∈ decoratedTexts g :=
      List.mem_append_left _ (List.mem_append_left _ (List.mem_map_of_mem listed))
    cases item with
    | leaf x depth =>
      obtain rfl := Option.some.inj same
      refine hasElement_drafted ((says_nodeText word keeps).mem_statementsOf inside) fun d => ?_
      exact List.mem_singleton_self _
    | opens x depth =>
      obtain rfl := Option.some.inj same
      refine hasElement_drafted ((says_groupText word keeps).mem_statementsOf inside) fun d => ?_
      rw [Statement.mentions, Draft.groupName, if_neg word.ne_empty]
      exact List.mem_singleton_self _
    | closes depth => cases same
  · obtain ⟨source, other, target⟩ := decorated.ends c among
    have inside : edgeText c ∈ decoratedTexts g :=
      List.mem_append_left _ (List.mem_append_right _ (List.mem_map_of_mem among))
    refine hasElement_drafted ((says_edgeText_any source other target).mem_statementsOf inside) fun d => ?_
    simpa [Statement.mentions] using which

/-- Each element gets the style of its line, and had none before. -/
theorem exists_bare (whole : ∀ x ∈ styled g.elements.values,
      Text.unquotedPieces ';' false (styleText x).toList = [(styleText x).toList])
    (there : e ∈ g.elements.values) {e' : Element}
    (found : (read now (decoratedTexts g)).element? e.id = some e') :
    ∃ x, x.style = ∅ ∧ e' = Draft.setStyles (readDeclarations e.style) x := by
  let before := drafted now (statementsOf (frameTexts g))
  have bare : StylesHave (fun _ _ => False) before.graph := stylesHave_drafted fun s said => by
    obtain ⟨line, there, said⟩ := mem_statementsOf.1 said
    exact (decorated.isFramePiece_frame line there).sets s said
  have said : ∀ x ∈ styled g.elements.values,
      Says (styleText x) (.style [x.id] (readDeclarations x.style)) := by
    intro x there
    obtain ⟨among, some⟩ := mem_of_mem_styled there
    exact says_styleText_any (decorated.words x among) (decorated.styles x among).written some (whole x there)
  have distinct : ((styled g.elements.values).map (·.id)).Nodup :=
    decorated.distinct.sublist (List.filter_sublist.map _)
  have run : read now (decoratedTexts g) = (styled g.elements.values).foldl
      (fun g x => g.modifyElement x.id (Draft.setStyles (readDeclarations x.style))) before.graph := by
    have start : (frameTexts g).foldl (Draft.readLine now) .empty = before := Draft.foldl_readLine ..
    rw [read, decoratedTexts, List.foldl_append, start, foldl_styleTexts now said]
  rw [run, Graph.element?, Table.get?_eq_some_iff, entries_foldl_modifyElement] at found
  obtain ⟨⟨key, x⟩, among, same⟩ := List.mem_map.1 found
  obtain ⟨rfl, rfl⟩ := Prod.mk.inj same
  refine ⟨x, (bare.elements x (Table.mem_values_iff.2 ⟨_, among, rfl⟩)).eq_empty, ?_⟩
  -- An element with an empty style has no line of its own, and no other line has its id.
  cases empty : e.style.isEmpty with
  | false =>
    have listed : e ∈ styled g.elements.values := List.mem_filter.2 ⟨there, by rw [empty]; rfl⟩
    exact foldl_ite_of_mem listed distinct x
  | true =>
    have absent : e.id ∉ (styled g.elements.values).map (·.id) := by
      intro listed
      obtain ⟨y, among, same⟩ := List.mem_map.1 listed
      obtain ⟨known, some⟩ := mem_of_mem_styled among
      rw [List.inj_on_of_nodup_map decorated.distinct known there same, empty] at some
      cases some
    have none : styleDeclarations e.style = [] := by simpa [styleDeclarations, Table.isEmpty] using empty
    rw [foldl_ite_of_not_mem absent, readDeclarations, none]
    rfl

end IsDecorated

/-- The source is read as the frame and the styles. -/
theorem IsDecorated.exists_parsed {d : Diagram} (decorated : IsDecorated d.toGraph) (now : Instant)
    (flowchart : d.dialect = .flowchart) : ∃ d', parse now (DiagramText.print d) = .ok d' ∧
      d'.dialect = .flowchart ∧ d'.toGraph = read now (decoratedTexts d.toGraph) := by
  obtain ⟨statements, body⟩ := decorated.lines
  have parsed := parse_source now (isHeader_headerText (printedDirection d))
    (dialectOf_headerText (printedDirection d)) d.metadata statements
  rw [← print_eq_source flowchart, body] at parsed
  exact ⟨_, parsed, rfl, rfl⟩

/-- What becomes of the style of an element that is read as another. -/
structure Restyled (g : Graph) (e e' : Element) : Prop where
  /-- A style with a comma in a value does not come back. -/
  comma : e'.style = e.style → IsFreeOf ',' e.style
  /-- Nor does one with a semicolon, if there are no quotes in any style. -/
  semicolon : (∀ x ∈ g.elements.values, IsFreeOf '"' x.style) → e'.style = e.style → IsFreeOf ';' e.style
  /-- Any other does, if no semicolon outside quotes takes a style line apart. -/
  same : (∀ x ∈ styled g.elements.values,
      Text.unquotedPieces ';' false (styleText x).toList = [(styleText x).toList]) →
    IsFreeOf ',' e.style → e'.style = e.style

/-- A flowchart is printed and read again. Every element that a line names is there; it has its style again if
and only if no value has a comma, or a semicolon that takes a line apart. -/
theorem parse_print_restyled (now : Instant) {d : Diagram} (flowchart : d.dialect = .flowchart)
    (decorated : IsDecorated d.toGraph) :
    ∃ d', parse now (DiagramText.print d) = .ok d' ∧ d'.dialect = .flowchart ∧
      ∀ e ∈ d.elements.values, (IsMentioned d.toGraph e → d'.hasElement e.id) ∧
        ∀ e', d'.element? e.id = some e' → Restyled d.toGraph e e' := by
  obtain ⟨d', parsed, dialect, same⟩ := decorated.exists_parsed now flowchart
  refine ⟨d', parsed, dialect, fun e there => ⟨fun named => ?_, fun e' found => ?_⟩⟩
  · rw [Graph.hasElement, same]
    exact decorated.hasElement_read now there named
  rw [Graph.element?, same] at found
  have among := Table.mem_values_of_get? found
  refine ⟨fun same => ?_, fun quoteless same => ?_, fun whole free => ?_⟩
  -- Whatever the lines are, no style that is read has a comma in a value.
  · have sound : Draft.Sound ((decoratedTexts d.toGraph).foldl (Draft.readLine now) .empty) :=
      Draft.sound_foldl_readLine Draft.sound_empty fun line listed =>
        (decorated.isLine_decoratedTexts line listed).unbroken
    have declared : HasValues IsDeclared e'.style := (sound.elements e' among).style
    rw [same] at declared
    exact declared.isFreeOf fun _ _ declared h => (declared.plain ',' (List.mem_append_right _ h)).1 rfl
  · have read := decorated.stylesHave_read now fun x listed => sets_of_quoteless (quoteless_styleText
      (decorated.words x (mem_of_mem_styled listed).1) (decorated.styles x (mem_of_mem_styled listed).1)
      (quoteless x (mem_of_mem_styled listed).1))
    have declared := read.elements e' among
    rw [same] at declared
    exact declared.isFreeOf fun _ _ free => free
  · obtain ⟨x, bare, rfl⟩ := decorated.exists_bare whole there found
    exact style_setStyles (decorated.styles e there) free bare

/-- A node in a style. -/
def paintedNode (id : String) (style : Table Json) : Element := { Element.node .epoch id id with style }

/-- Colours by name and by numbers. -/
def painted : Diagram := .ofGraph .flowchart
  ⟨⟨[("a", paintedNode "a" ⟨[("fill", .str "rgb(1,2,3)")], by decide⟩),
      ("b", paintedNode "b" ⟨[("fill", .str "red"), ("stroke-dasharray", .str "5 5")], by decide⟩)], by decide⟩,
    ⟨[("c", .create .epoch "c" "a" "b" "default")], by decide⟩⟩ (.create .epoch)

theorem isDecorated_painted : IsDecorated painted.toGraph := ⟨by decide, by decide, by decide, by decide⟩

/-- No semicolon takes their lines apart. -/
theorem whole_painted : ∀ x ∈ styled painted.elements.values,
    Text.unquotedPieces ';' false (styleText x).toList = [(styleText x).toList] := by decide

theorem parse_print_restyled_painted : ∃ d', parse .epoch (DiagramText.print painted) = .ok d' ∧
    d'.dialect = .flowchart ∧
    (∀ e' ∈ d'.element? "a", e'.style ≠ ⟨[("fill", .str "rgb(1,2,3)")], by decide⟩) ∧
    ∃ e', d'.element? "b" = some e' ∧
      e'.style = ⟨[("fill", .str "red"), ("stroke-dasharray", .str "5 5")], by decide⟩ := by
  obtain ⟨d', parsed, dialect, restyled⟩ := parse_print_restyled .epoch rfl isDecorated_painted
  have elements : painted.elements.values =
      [paintedNode "a" ⟨[("fill", .str "rgb(1,2,3)")], by decide⟩,
        paintedNode "b" ⟨[("fill", .str "red"), ("stroke-dasharray", .str "5 5")], by decide⟩] := rfl
  rw [elements, List.forall_mem_cons, List.forall_mem_singleton] at restyled
  obtain ⟨⟨-, numbers⟩, present, names⟩ := restyled
  refine ⟨d', parsed, dialect, fun e' found same => ?_, ?_⟩
  · exact absurd ((numbers e' found).comma same) (by decide)
  · have named : d'.hasElement "b" := present (.inr ⟨_, List.mem_singleton_self _, .inr rfl⟩)
    obtain ⟨e', found⟩ := Option.isSome_iff_exists.1 named
    exact ⟨e', found, (names e' found).same whole_painted (by decide)⟩

/-- A value with commas is cut at the first of them. -/
theorem style_read_commas : ∃ d' e', parse .epoch (DiagramText.print painted) = .ok d' ∧
    d'.element? "a" = some e' ∧ e'.style.entries = [("fill", .str "rgb(1")] := by
  let e := paintedNode "a" ⟨[("fill", .str "rgb(1,2,3)")], by decide⟩
  have there : e ∈ painted.elements.values := List.mem_cons_self ..
  obtain ⟨d', parsed, -, same⟩ := isDecorated_painted.exists_parsed .epoch rfl
  have named := isDecorated_painted.hasElement_read .epoch there (.inr ⟨_, List.mem_singleton_self _, .inl rfl⟩)
  obtain ⟨e', found⟩ := Option.isSome_iff_exists.1 named
  obtain ⟨x, bare, drawn⟩ := isDecorated_painted.exists_bare whole_painted there found
  have cut : readDeclarations e.style = [("fill", "rgb(1")] := by decide
  refine ⟨d', e', parsed, same ▸ found, ?_⟩
  rw [drawn, cut]
  simp [Draft.setStyles, Element.setStyle, bare, Table.put]

end DiagramText.Flowchart
