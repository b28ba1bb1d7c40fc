import DiagramText.Proofs.Classes.Soundness

/-! Class source formatted again. What was read is printed as its flat form: its texts on one line,
and nothing of a label or stereotype that is empty. Source carries the flat form, as long as no text
ends the body in which it is printed and none is taken for a comment there. -/
namespace DiagramText.Classes

open Text (IsWord IsQuotable oneLine)

/-! ### Texts on one line -/

section OneLine

variable {s : String}

theorem isBodyText_oneLine (filled : s ≠ "") (tight : Text.trimmed s = s) (brace : '\x7d' ∉ s.toList) :
    IsBodyText (oneLine s) where
  filled := Text.oneLine_ne_empty filled
  tight := Text.trimmed_oneLine tight
  brace h := brace (Text.mem_of_mem_singleLine (by decide) (Text.toList_oneLine s ▸ h))
  cr h := (Text.not_break_of_mem_singleLine (Text.toList_oneLine s ▸ h)).2 rfl
  lf h := (Text.not_break_of_mem_singleLine (Text.toList_oneLine s ▸ h)).1 rfl

/-- Angle brackets that are there after line breaks have become spaces were there before. -/
theorem isUnmarked_oneLine (plain : IsPlain s) (noComment : ¬ Source.commentMark <+: s.toList) :
    IsUnmarked (oneLine s) where
  noComment h := noComment (Text.prefix_of_prefix_singleLine (by decide) (Text.toList_oneLine s ▸ h))
  noStereotype inner same := by
    rw [Text.toList_oneLine] at same
    obtain ⟨before, stop, split, line, stopLine⟩ := Text.exists_append_of_singleLine same
    obtain ⟨start, middle, rfl, startLine, -⟩ := Text.exists_append_of_singleLine line
    have whole {as : List Char} {mark : List Char} (free : ' ' ∉ mark) (line : Text.singleLine as = mark) :
        as = mark := by rw [← line, Text.singleLine_eq_self_of_not_mem (line ▸ free)]
    rw [whole (by decide) startLine, whole (by decide) stopLine] at split
    exact plain.noStereotype middle split

end OneLine

/-! ### The flat form -/

/-- A member as it is printed. -/
def Member.flat : Member → Member
  | .attribute s => .attribute (oneLine s)
  | .method s => .method (oneLine s)
  | .stereotype s => .stereotype (oneLine s)

/-- A member that leaves its body open and is no comment. -/
def Member.IsInert : Member → Prop
  | .attribute s | .method s => '\x7d' ∉ s.toList ∧ ¬ Source.commentMark <+: s.toList
  | .stereotype s => '\x7d' ∉ s.toList

instance : (m : Member) → Decidable m.IsInert
  | .attribute s | .method s =>
    inferInstanceAs (Decidable ('\x7d' ∉ s.toList ∧ ¬ Source.commentMark <+: s.toList))
  | .stereotype s => inferInstanceAs (Decidable ('\x7d' ∉ s.toList))

/-- A class as it is printed: a label or stereotype that is empty is not. -/
def Profile.flat (p : Profile) : Profile where
  name := p.name
  label := if p.label = "" then p.name else oneLine p.label
  stereotype := (p.stereotype.bind Reader.nonEmpty).map oneLine
  attributes := p.attributes.map oneLine
  methods := p.methods.map oneLine

/-- A relation as it is printed. -/
def Tie.flat (t : Tie) : Tie :=
  { t with
    label := oneLine t.label
    sourceCardinality := t.sourceCardinality.map oneLine
    targetCardinality := t.targetCardinality.map oneLine }

theorem Member.isTextual_flat {m : Member} (read : m.IsRead) (inert : m.IsInert)
    (filled : m ≠ .stereotype "") : m.flat.IsTextual := by
  match m with
  | .attribute s =>
    obtain ⟨plain, none⟩ := read
    refine ⟨isBodyText_oneLine plain.filled plain.tight inert.1, isUnmarked_oneLine plain inert.2, ?_⟩
    exact fun h => none (Text.mem_of_mem_singleLine (by decide) (Text.toList_oneLine s ▸ h))
  | .method s =>
    obtain ⟨plain, opened⟩ := read
    refine ⟨isBodyText_oneLine plain.filled plain.tight inert.1, isUnmarked_oneLine plain inert.2, ?_⟩
    rw [Text.toList_oneLine]
    exact Text.mem_singleLine (by decide) opened
  | .stereotype s => exact isBodyText_oneLine (fun none => filled (by rw [none])) read inert

theorem Profile.exists_of_mem_members_flat {p : Profile} {m : Member} (h : m ∈ p.flat.members) :
    ∃ n ∈ p.members, n ≠ .stereotype "" ∧ m = n.flat := by
  simp only [members, flat, List.mem_append, List.map_map, List.mem_map, Option.mem_toList,
    Option.map_eq_some_iff, Option.bind_eq_some_iff] at h
  rcases h with ⟨t, ⟨s, ⟨r, given, kept⟩, rfl⟩, rfl⟩ | ⟨s, there, rfl⟩ | ⟨s, there, rfl⟩
  · obtain ⟨rfl, some⟩ := Reader.nonEmpty_eq_some kept
    exact ⟨.stereotype s, by simp [members, given], by simpa using some, rfl⟩
  · exact ⟨.attribute s, by simp [members, there], by simp, rfl⟩
  · exact ⟨.method s, by simp [members, there], by simp, rfl⟩

theorem Profile.isTextual_flat {p : Profile} (read : p.IsRead) (inert : ∀ m ∈ p.members, m.IsInert) :
    p.flat.IsTextual where
  word := read.word
  filled := by
    unfold flat
    dsimp only
    split
    · exact read.word.ne_empty
    · next some => exact Text.oneLine_ne_empty some
  quotable := by
    unfold flat
    dsimp only
    split
    · exact read.word.quotable
    · exact Text.isQuotable_oneLine read.decoded
  members m h := by
    obtain ⟨n, there, filled, rfl⟩ := exists_of_mem_members_flat h
    exact Member.isTextual_flat (read.members n there) (inert n there) filled

theorem Tie.isTextual_flat {t : Tie} (read : t.IsRead) : t.flat.IsTextual where
  known := read.known
  tight := Text.trimmed_oneLine read.tight
  cr h := (Text.not_break_of_mem_singleLine (Text.toList_oneLine t.label ▸ h)).2 rfl
  lf h := (Text.not_break_of_mem_singleLine (Text.toList_oneLine t.label ▸ h)).1 rfl
  sourceCardinality s h := by
    obtain ⟨r, given, rfl⟩ := Option.map_eq_some_iff.1 h
    exact Text.isQuotable_oneLine (read.sourceCardinality r given)
  targetCardinality s h := by
    obtain ⟨r, given, rfl⟩ := Option.map_eq_some_iff.1 h
    exact Text.isQuotable_oneLine (read.targetCardinality r given)

/-! ### The flat form is printed in the same way -/

theorem headText_of_flat {e f : Element} (word : IsWord e.id) (name : f.id = e.id)
    (label : f.label = (profile e).flat.label) : headText f = headText e := by
  unfold headText
  rw [name, label]
  simp only [Profile.flat, profile]
  by_cases none : e.label = ""
  · simp [none]
  · by_cases own : e.label = e.id
    · simp [own, word.oneLine, word.ne_empty]
    · have apart : oneLine e.label ≠ e.id := fun same =>
        own ((Text.eq_of_oneLine_word (same ▸ word)).symm.trans same)
      simp [none, own, apart, Text.oneLine_ne_empty none]

theorem bodyTexts_of_flat {e f : Element} (same : profile f = (profile e).flat) :
    bodyTexts f = bodyTexts e := by
  have stereotype : f.property? stereotypeKey =
      ((e.property? stereotypeKey).bind Reader.nonEmpty).map oneLine := congrArg Profile.stereotype same
  have attributes : f.listed attributesKey = (e.listed attributesKey).map oneLine :=
    congrArg Profile.attributes same
  have methods : f.listed methodsKey = (e.listed methodsKey).map oneLine := congrArg Profile.methods same
  have shown (o : Option String) : ((o.bind Reader.nonEmpty).map oneLine).bind Reader.nonEmpty =
      (o.bind Reader.nonEmpty).map oneLine := by
    cases o with
    | none => rfl
    | some s =>
      by_cases none : s = ""
      · simp [Reader.nonEmpty, none]
      · simp [Reader.nonEmpty, none, Text.oneLine_ne_empty none]
  unfold bodyTexts
  rw [stereotype, attributes, methods, shown]
  simp [Function.comp_def]

theorem classLines_of_flat (layout : Layout) {e f : Element} (word : IsWord e.id)
    (same : profile f = (profile e).flat) : classLines layout f = classLines layout e := by
  unfold classLines
  rw [headText_of_flat word (congrArg Profile.name same) (congrArg Profile.label same),
    bodyTexts_of_flat same]

theorem relationText_of_flat {c d : Connection} (same : tie d = (tie c).flat) :
    relationText d = relationText c := by
  simp only [tie, Tie.flat, Tie.mk.injEq] at same
  obtain ⟨source, target, kind, label, left, right⟩ := same
  have cardinality (o : Option String) : cardinalityText (o.map oneLine) = cardinalityText o := by
    cases o <;> simp [cardinalityText]
  unfold relationText Connection.hasLabel
  rw [source, target, kind, label, left, right, cardinality, cardinality, Text.isBlankText_oneLine,
    Text.oneLine_oneLine]

/-- A class with a profile. -/
def Profile.element (p : Profile) : Element :=
  p.members.foldl (fun e m => Draft.record m e) { Draft.newClass .epoch p.name 0 with label := p.label }

theorem profile_element (p : Profile) : profile p.element = p := by
  rw [Profile.element, profile_foldl_record]
  exact p.foldl_add_members

def Tie.connection (t : Tie) (id : String) : Connection :=
  Graph.linkAs .epoch id t.source t.target t.kind t.label
    (Draft.cardinalities t.sourceCardinality t.targetCardinality)

theorem tie_connection (t : Tie) (id : String) : tie (t.connection id) = t := tie_linkAs ..

/-- A class diagram as it is printed. -/
def flatten (g : Graph) : Graph :=
  ⟨g.elements.mapValues fun e => (profile e).flat.element,
    g.connections.mapValues fun c => (tie c).flat.connection c.id⟩

theorem profiles_flatten (g : Graph) :
    (flatten g).elements.values.map profile = g.elements.values.map fun e => (profile e).flat := by
  rw [flatten, Table.values_mapValues, List.map_map]
  exact List.map_congr_left fun e _ => profile_element _

theorem ties_flatten (g : Graph) :
    (flatten g).connections.values.map tie = g.connections.values.map fun c => (tie c).flat := by
  rw [flatten, Table.values_mapValues, List.map_map]
  exact List.map_congr_left fun c _ => tie_connection _ _

theorem sourceLines_flatten (layout : Layout) {g : Graph} (read : IsRead g) :
    sourceLines layout (flatten g) = sourceLines layout g := by
  have classes : (flatten g).elements.values.flatMap (classLines layout) =
      g.elements.values.flatMap (classLines layout) := by
    rw [flatten, Table.values_mapValues, List.flatMap_map]
    exact List.flatMap_congr fun e there =>
      classLines_of_flat layout (read.elements e there).word (profile_element _)
  have relations : ((flatten g).connections.values.map fun c => layout.indented 1 (relationText c)) =
      g.connections.values.map fun c => layout.indented 1 (relationText c) := by
    rw [flatten, Table.values_mapValues, List.map_map]
    exact List.map_congr_left fun c _ =>
      congrArg (layout.indented 1) (relationText_of_flat (tie_connection _ _))
  rw [sourceLines, classes, relations, sourceLines]

/-- Nothing that is printed of a class ends its body or is a comment in it. -/
def IsInert (g : Graph) : Prop := ∀ e ∈ g.elements.values, ∀ m ∈ (profile e).members, m.IsInert

instance (g : Graph) : Decidable (IsInert g) :=
  inferInstanceAs (Decidable (∀ e ∈ g.elements.values, ∀ m ∈ (profile e).members, m.IsInert))

theorem isTextual_flatten {g : Graph} (keyed : g.Keyed) (closed : g.Closed) (read : IsRead g)
    (inert : IsInert g) : IsTextual (flatten g) where
  keyed p h := by
    obtain ⟨⟨k, e⟩, there, rfl⟩ := List.mem_map.1 h
    have own : (profile e).flat.element.id = e.id := congrArg Profile.name (profile_element _)
    exact (keyed.elements _ there).trans own.symm
  classes := by
    rw [flatten, Table.values_mapValues, List.forall_mem_map]
    intro e there
    rw [profile_element]
    exact Profile.isTextual_flat (read.elements e there) (inert e there)
  joined := by
    rw [Graph.Closed, flatten, Table.values_mapValues, List.forall_mem_map]
    intro c there
    have joined := closed c there
    rw [Graph.joins, Graph.hasElement, Graph.hasElement] at joined ⊢
    rwa [Table.contains_mapValues, Table.contains_mapValues]
  relations := by
    rw [flatten, Table.values_mapValues, List.forall_mem_map]
    intro c there
    rw [tie_connection]
    exact Tie.isTextual_flat (read.connections c there)

/-! ### The whole source -/

/-- A class diagram that is read and has no text that ends its body or is a comment in it comes back
in its flat form when it is printed and read again, and is printed as before. -/
theorem parse_print_of_inert {now : Instant} (later : Instant) {text : String} {d : Diagram}
    (parsed : parse now text = .ok d) (classes : d.dialect = .classes) (inert : IsInert d.toGraph) :
    ∃ d', parse later (DiagramText.print d) = .ok d' ∧ d'.dialect = .classes ∧
      d'.elements.values.map profile = d.elements.values.map (fun e => (profile e).flat) ∧
      d'.connections.values.map tie = d.connections.values.map (fun c => (tie c).flat) ∧
      DiagramText.print d' = DiagramText.print d := by
  obtain ⟨lines, graph⟩ := Registry.toGraph_of_parse parsed
  rw [classes] at graph
  have read : IsRead d.toGraph := graph ▸ isRead_read now lines
  have textual : IsTextual (flatten d.toGraph) :=
    isTextual_flatten (graph ▸ Dialect.keyed_read .classes now lines)
      (graph ▸ Dialect.closed_read .classes now lines) read inert
  have same := sourceLines_flatten .usual read
  have statements := isStatement_sourceLines .usual textual
  obtain ⟨profiles, ties⟩ := read_sourceLines later .usual textual
  have again := sourceLines_eq .usual profiles ties
  rw [same] at statements again profiles ties
  obtain ⟨d', reparsed, dialect, back, printed⟩ := parse_print_of_lines later classes isHeader
    dialectOf_header (fun g m => rfl) statements again
  replace back : d'.toGraph = Classes.read later ((sourceLines .usual d.toGraph).map Text.trimmed) := back
  rw [← back] at profiles ties
  exact ⟨d', reparsed, dialect, profiles.trans (profiles_flatten _), ties.trans (ties_flatten _), printed⟩

/-! ### Members in each of their places, and one that ends its body -/

def inertText : String :=
  "classDiagram\nclass A[\"a \\ #quot;b#quot;\"] \x7b\n<<x > y>>\n+String s\n  say(\"go\"): %% \n\x7d\n" ++
    "class B \x7b one; two() \x7d\n<<late>> B\nB : three\nA \"1\" *-- \"many\" B : holds: all"

def inertLines : List String :=
  ["class A[\"a \\ #quot;b#quot;\"] \x7b", "<<x > y>>", "+String s", "say(\"go\"): %%", "\x7d",
    "class B \x7b one; two() \x7d", "<<late>> B", "B : three", "A \"1\" *-- \"many\" B : holds: all"]

theorem parse_print_of_inert_sample : ∃ d, parse .epoch inertText = .ok d ∧ d.dialect = .classes ∧
    IsInert d.toGraph ∧ ∃ d', parse .epoch (DiagramText.print d) = .ok d' ∧ d'.dialect = .classes ∧
      d'.elements.values.map profile = d.elements.values.map (fun e => (profile e).flat) ∧
      d'.connections.values.map tie = d.connections.values.map (fun c => (tie c).flat) ∧
      DiagramText.print d' = DiagramText.print d := by
  have taken : Source.ofText? inertText = some ⟨"classDiagram", inertLines, none⟩ := by decide +kernel
  obtain ⟨d, parsed, classes, graph⟩ := Registry.exists_parse .epoch taken dialectOf_header
  have inert : IsInert d.toGraph := by
    rw [graph]
    decide +kernel
  exact ⟨d, parsed, classes, inert, parse_print_of_inert .epoch parsed classes inert⟩

/-- A brace in a member that came on a line of its own ends the body in which it is printed. -/
theorem attributes_parse_print_brace : ∃ d d', parse .epoch "classDiagram\nA : x\x7d" = .ok d ∧
    d.dialect = .classes ∧ parse .epoch (DiagramText.print d) = .ok d' ∧
      d.elements.values.map (·.listed attributesKey) = [["x\x7d"]] ∧
      d'.elements.values.map (·.listed attributesKey) = [["x"]] := by
  have taken : Source.ofText? "classDiagram\nA : x\x7d" = some ⟨"classDiagram", ["A : x\x7d"], none⟩ := by
    decide +kernel
  obtain ⟨d, parsed, classes, graph⟩ := Registry.exists_parse .epoch taken dialectOf_header
  replace graph : d.toGraph = Classes.read .epoch ["A : x\x7d"] := graph
  have lines : sourceLines .usual (Classes.read .epoch ["A : x\x7d"]) =
      ["    class A \x7b", "        x\x7d", "    \x7d"] := by decide +kernel
  have kept : (Classes.read .epoch ["A : x\x7d"]).elements.values.map (·.listed attributesKey) =
      [["x\x7d"]] := by decide +kernel
  have lost : (Classes.read .epoch (["    class A \x7b", "        x\x7d", "    \x7d"].map
      Text.trimmed)).elements.values.map (·.listed attributesKey) = [["x"]] := by decide +kernel
  have statements : ∀ line ∈ sourceLines .usual d.toGraph, Source.IsStatement line.toList := by
    rw [graph, lines]
    simp only [List.forall_mem_cons]
    exact ⟨⟨by decide, by decide, by decide⟩, ⟨by decide, by decide, by decide⟩,
      ⟨by decide, by decide, by decide⟩, by simp⟩
  have printed : DiagramText.print d = Layout.usual.source "classDiagram" d.metadata
      (sourceLines .usual d.toGraph) := by
    rw [DiagramText.print, classes]
    rfl
  have reparsed := parse_source .epoch isHeader dialectOf_header d.metadata statements
  rw [← printed, graph, lines] at reparsed
  exact ⟨d, _, parsed, classes, reparsed, (congrArg (·.elements.values.map (·.listed attributesKey)) graph).trans
    kept, lost⟩

end DiagramText.Classes
