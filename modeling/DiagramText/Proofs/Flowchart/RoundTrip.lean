import DiagramText.Proofs.Flowchart.Drawing
import DiagramText.Proofs.Formatting
import DiagramText.Proofs.Graph.Contents

/-! Flowchart source carries the diagram. A graph is printed as its outline, its edges and its styles;
if each of those lines is read as what it says, the graph is drawn again and printed as before. A
diagram whose ids are words, whose labels stay on their line and whose containers are nested like a
forest is read as the same drawing. -/
namespace DiagramText

namespace Flowchart

open Outline (Forest Item Pen)
open Text (IsWord)

variable {now : Instant} {g h : Graph} {f : Forest}

/-! ### The source of a graph -/

/-- The header of printed source. -/
def headerText (direction : Direction) : String := "flowchart " ++ direction.name

theorem isHeader_headerText (direction : Direction) : Source.IsHeader (headerText direction) := by
  cases direction <;> exact ⟨⟨by decide, by decide, by decide⟩, by decide, by decide⟩

theorem dialectOf_headerText (direction : Direction) :
    (Registry.full).dialectOf (headerText direction) = .ok .flowchart := by
  cases direction <;> rfl

theorem direction?_headerText (direction : Direction) (body : List String) (title : Option String) :
    (Source.mk (headerText direction) body title).direction? = some direction := by
  have words : Text.words (headerText direction).toList =
      ["flowchart".toList, direction.name.toList] := by cases direction <;> decide
  have named : Direction.ofText (String.ofList direction.name.toList) = .ok direction := by
    cases direction <;> rfl
  rw [Source.direction?, words, List.getElem?_cons_succ, List.getElem?_cons_zero, Option.bind_some,
    named]
  rfl

/-- The elements that have a style line. -/
def styled (es : List Element) : List Element := es.filter fun e => !e.style.isEmpty

/-- The lines under the header. -/
def sourceLines (g : Graph) : List String :=
  (Outline.ofElements g.elements fun _ => false).map (itemLine .usual) ++
    g.connections.values.map (fun c => Layout.usual.indented 1 (edgeText c)) ++
    (styled g.elements.values).map fun e => Layout.usual.indented 1 (styleText e)

theorem sourceLines_eq (g : Graph) : sourceLines g =
    (Outline.ofElements g.elements fun _ => false).map (itemLine .usual) ++
      (g.connections.values.map edgeText).map (Layout.usual.indented 1) ++
      ((styled g.elements.values).map styleText).map (Layout.usual.indented 1) := by
  rw [sourceLines, List.map_map, List.map_map]
  rfl

/-- The direction in the header of a diagram. -/
def printedDirection (d : Diagram) : Direction :=
  d.metadata.direction.getD Layout.usual.defaultDirection

theorem print_eq_source {d : Diagram} (flowchart : d.dialect = .flowchart) : DiagramText.print d =
    Layout.usual.source (headerText (printedDirection d)) d.metadata (sourceLines d.toGraph) := by
  rw [DiagramText.print, flowchart]
  rfl

/-- A graph whose source is read back line by line. -/
structure IsReadable (g : Graph) : Prop where
  nested : Outline.Nested g.elements
  words : ∀ e ∈ g.elements.values, IsWord e.id
  labels : ∀ e ∈ g.elements.values, Keeps e.label
  closed : g.Closed
  sources : ∀ c ∈ g.connections.values, c.source ≠ "subgraph"
  arrows : ∀ c ∈ g.connections.values, (Arrow.ofKey? c.kind).isSome
  texts : ∀ c ∈ g.connections.values, Text.trimmed c.label = c.label
  styles : ∀ e ∈ g.elements.values, IsStyle e.style
  /-- No semicolon outside quotes takes a style line apart. -/
  whole : ∀ e ∈ styled g.elements.values,
    Text.unquotedPieces ';' false (styleText e).toList = [(styleText e).toList]
  /-- Styles come in the order of the outline. -/
  order : styled ((Outline.ofElements g.elements fun _ => false).filterMap Item.element?) =
    styled g.elements.values

/-- The line of an outline without its indentation. -/
def itemText : Item → String
  | .leaf e _ => nodeText e
  | .opens e _ => groupText e
  | .closes _ => "end"

theorem itemLine_eq (layout : Layout) (item : Item) :
    ∃ depth, itemLine layout item = layout.indented depth (itemText item) := by
  cases item <;> exact ⟨_, rfl⟩

/-- The lines of a graph without their indentation. -/
def bodyTexts (f : Forest) (g : Graph) : List String :=
  (f.items 1).map itemText ++ g.connections.values.map edgeText ++
    (styled g.elements.values).map styleText

theorem mem_of_mem_styled {es : List Element} {e : Element} (there : e ∈ styled es) :
    e ∈ es ∧ e.style.isEmpty = false := by
  rw [styled, List.mem_filter, Bool.not_eq_true'] at there
  exact there

/-- The lines of an outline each say their item. -/
theorem says_items (words : ∀ e ∈ f.preorder, IsWord e.id) (labels : ∀ e ∈ f.preorder, Keeps e.label) :
    ∀ item ∈ f.items 1, Says (itemText item) (itemStatement item) :=
  Forest.forall_items (fun e there _ => says_nodeText (words e there) (labels e there))
    (fun e there _ => says_groupText (words e there) (labels e there)) (fun _ => says_end) 1

/-- A readable graph, and the forest that its outline is. -/
structure IsForested (g : Graph) (f : Forest) : Prop where
  readable : IsReadable g
  outline : Outline.ofElements g.elements (fun _ => false) = f.items 1
  shown : f.Shows g.elements
  all : f.ids.Perm g.elements.keys

theorem IsReadable.exists_forest (readable : IsReadable g) : ∃ f, IsForested g f := by
  obtain ⟨f, outline, shown, all⟩ := Outline.exists_shown readable.nested
  exact ⟨f, readable, outline, shown, all⟩

namespace IsForested

variable (forested : IsForested g f)

include forested

theorem among : ∀ e ∈ f.preorder, e ∈ g.elements.values :=
  fun e there => Table.mem_values_of_get? (forested.shown.get? e there)

theorem distinct : f.ids.Nodup := forested.all.nodup_iff.2 g.elements.nodup

theorem mem_preorder {e : Element} (there : e ∈ g.elements.values) : e ∈ f.preorder :=
  forested.shown.mem_preorder forested.all forested.readable.nested.keyed there

theorem words : ∀ e ∈ f.preorder, IsWord e.id := fun e there => forested.readable.words e (forested.among e there)

theorem labels : ∀ e ∈ f.preorder, Keeps e.label := fun e there => forested.readable.labels e (forested.among e there)

theorem said_items : ∀ item ∈ f.items 1, Says (itemText item) (itemStatement item) :=
  says_items forested.words forested.labels

end IsForested

theorem IsReadable.said_edges (readable : IsReadable g) : ∀ c ∈ g.connections.values,
    Says (edgeText c) (.chain ⟨c.source, none, none⟩ [edgeLink c]) := by
  intro c there
  obtain ⟨source, target⟩ := Graph.ends_of_joins readable.nested.keyed readable.words (readable.closed c there)
  exact says_edgeText source (readable.sources c there) target (readable.texts c there)

theorem IsReadable.said_styles (readable : IsReadable g) : ∀ e ∈ styled g.elements.values,
    Says (styleText e) (.style [e.id] (styleDeclarations e.style)) := by
  intro e there
  obtain ⟨among, some⟩ := mem_of_mem_styled there
  exact says_styleText (readable.words e among) (readable.styles e among) some (readable.whole e there)

/-- The printed lines are statements in the source. Without its indentation each is as it was, but for
blanks at the end of a style. -/
theorem statements_of_sourceLines
    (items : ∀ item ∈ Outline.ofElements g.elements fun _ => false, Source.IsLine (itemText item))
    (edges : ∀ c ∈ g.connections.values, Source.IsLine (edgeText c))
    (styles : ∀ e ∈ styled g.elements.values, Source.IsStatement (styleText e).toList) :
    (∀ line ∈ sourceLines g, Source.IsStatement line.toList) ∧
      (sourceLines g).map Text.trimmed = (Outline.ofElements g.elements fun _ => false).map itemText ++
        g.connections.values.map edgeText ++ (styled g.elements.values).map fun e => Text.trimmed (styleText e) := by
  have items := Source.indented_lines .usual (itemLine_eq .usual) items
  have edges := Source.indented_lines .usual (fun c => ⟨1, rfl⟩) edges
  rw [sourceLines]
  constructor
  · rw [List.forall_mem_append, List.forall_mem_append]
    exact ⟨⟨items.1, edges.1⟩, List.forall_mem_map.2 fun e there => (styles e there).indented .usual 1⟩
  · rw [List.map_append, List.map_append, items.2, edges.2, List.map_map]
    exact congrArg _ (List.map_congr_left fun e _ => Source.trimmed_indented .usual 1 (styleText e))

/-- Lines of their own are statements in the source, and without its indentation each is as it was. -/
theorem lines_of_sourceLines
    (items : ∀ item ∈ Outline.ofElements g.elements fun _ => false, Source.IsLine (itemText item))
    (edges : ∀ c ∈ g.connections.values, Source.IsLine (edgeText c))
    (styles : ∀ e ∈ styled g.elements.values, Source.IsLine (styleText e)) :
    (∀ line ∈ sourceLines g, Source.IsStatement line.toList) ∧
      (sourceLines g).map Text.trimmed = (Outline.ofElements g.elements fun _ => false).map itemText ++
        g.connections.values.map edgeText ++ (styled g.elements.values).map styleText := by
  obtain ⟨statements, body⟩ := statements_of_sourceLines items edges fun e there => (styles e there).isStatement
  exact ⟨statements, body.trans (congrArg _ (List.map_congr_left fun e there => (styles e there).trimmed))⟩

/-- Every printed line is a statement, and without its indentation it is a line of the body. -/
theorem IsForested.lines (forested : IsForested g f) :
    (∀ line ∈ sourceLines g, Source.IsStatement line.toList) ∧
      (sourceLines g).map Text.trimmed = bodyTexts f g := by
  have outline := forested.outline
  rw [bodyTexts, ← outline]
  exact lines_of_sourceLines (fun item there => (forested.said_items item (outline ▸ there)).toIsLine)
    (fun c there => (forested.readable.said_edges c there).toIsLine)
    fun e there => (forested.readable.said_styles e there).toIsLine

/-! ### Read again -/

/-- A connection with its label as it is read. -/
def reread (c : Connection) : Connection := { c with label := carried c.label }

@[simp] theorem label_reread (c : Connection) : (reread c).label = carried c.label := by
  rw [reread]

theorem edgeText_of_drawn {c d : Connection} (same : c.drawn = d.drawn) : edgeText c = edgeText d := by
  simp only [Connection.drawn, Prod.mk.injEq] at same
  obtain ⟨source, target, kind, label⟩ := same
  unfold edgeText Connection.hasLabel
  rw [source, target, kind, label]

/-- An edge with its label as it is read is written as before. -/
theorem edgeText_reread {c : Connection} (tight : Text.trimmed c.label = c.label) :
    edgeText (reread c) = edgeText c := by
  have filled : (reread c).hasLabel = c.hasLabel := by
    have still : Text.trimmed (reread c).label = (reread c).label := by
      rw [label_reread]
      exact trimmed_carried tight
    rw [Bool.eq_iff_iff, Connection.hasLabel_iff tight, Connection.hasLabel_iff still, label_reread]
    exact not_congr carried_eq_empty_iff
  unfold edgeText
  rw [filled]
  simp only [reread, labelText_carried]

/-- What is read of a printed graph. -/
structure Redrawn (now : Instant) (g : Graph) (f : Forest) (h : Graph) : Prop where
  entries : h.elements.entries = ((pen now (·.style)).redraw 0 f).entries
  connections : h.connections.values.map Connection.drawn =
    g.connections.values.map fun c => (reread c).drawn

/-- The draft after the outline: the drawn forest, without any connection. -/
theorem foldl_items (now : Instant) (words : ∀ e ∈ f.preorder, IsWord e.id) (labels : ∀ e ∈ f.preorder, Keeps e.label)
    (distinct : f.ids.Nodup) : ∃ h : Graph,
    ((f.items 1).map itemText).foldl (Draft.readLine now) .empty = ⟨h, []⟩ ∧
      h.elements.entries = ((pen now fun _ => ∅).redraw 0 f).entries ∧ h.connections = ∅ := by
  have steps : ((f.items 1).map itemText).foldl (Draft.readLine now) .empty =
      (f.items 1).foldl (fun d item => d.apply now (itemStatement item)) .empty := by
    rw [List.foldl_map]
    exact List.foldl_ext _ _ _ fun d item there => (says_items words labels item there).readLine now d
  let d := (f.items 1).foldl (fun (d : Draft) item => d.apply now (itemStatement item)) .empty
  have canvas : d.canvas = Draft.empty.canvas.drawn (pen now fun _ => ∅) f :=
    (draws now).forest .empty f 1 (by simp [Outline.Canvas.IsOpen, Draft.canvas, Draft.empty,
      Outline.Canvas.ofGraph]) (fun e there => (words e there).ne_empty) distinct
      (by simp [Draft.canvas, Draft.empty, Outline.Canvas.ofGraph, Outline.Canvas.ids, Graph.empty])
  have closed : d.groups = [] := congrArg Outline.Canvas.groups canvas
  refine ⟨d.graph, ?_, congrArg Outline.Canvas.entries canvas, congrArg Outline.Canvas.connections canvas⟩
  rw [steps, ← closed]

/-- Style lines that each say what they declare. -/
theorem foldl_styleTexts (now : Instant) {declared : Element → List (String × String)} {es : List Element}
    (said : ∀ e ∈ es, Says (styleText e) (.style [e.id] (declared e))) (d : Draft) :
    (es.map styleText).foldl (Draft.readLine now) d =
      ⟨es.foldl (fun g e => g.modifyElement e.id (Draft.setStyles (declared e))) d.graph, d.groups⟩ := by
  induction es generalizing d with
  | nil => rfl
  | cons e es ih =>
    rw [List.forall_mem_cons] at said
    rw [List.map_cons, List.foldl_cons, said.1.readLine]
    exact ih said.2 _

theorem foldl_styles (now : Instant) (readable : IsReadable g) (h : Graph) :
    ((styled g.elements.values).map styleText).foldl (Draft.readLine now) ⟨h, []⟩ =
      ⟨restyled h (styled g.elements.values), []⟩ := foldl_styleTexts now readable.said_styles ⟨h, []⟩

/-- Read again, the lines of a graph draw its forest, join it and put the styles on it. -/
theorem redrawn_read (now : Instant) (forested : IsForested g f) :
    Redrawn now g f (read now (bodyTexts f g)) := by
  have readable := forested.readable
  obtain ⟨h, outline, entries, none⟩ := foldl_items now forested.words forested.labels forested.distinct
  have keys : h.elements.keys = f.ids := by rw [Table.keys, entries, Pen.keys_redraw]
  have joined : ∀ c ∈ g.connections.values, h.joins c := by
    intro c there
    refine Graph.joins_mono (fun id has => ?_) (readable.closed c there)
    rw [Graph.hasElement_iff] at has ⊢
    rw [keys]
    exact forested.all.mem_iff.2 has
  have edges : (g.connections.values.map edgeText).foldl (Draft.readLine now) ⟨h, []⟩ =
      ⟨h.connectAll now (g.connections.values.map edgeJoint), []⟩ := by
    have each (g' : Graph) : ∀ c ∈ g.connections.values, g'.joins c →
        Draft.readLine now ⟨g', []⟩ (edgeText c) = ⟨g'.connectAll now [edgeJoint c], []⟩ := by
      intro c there joined
      rw [(readable.said_edges c there).readLine]
      exact Draft.apply_edge joined (readable.arrows c there)
    exact Graph.foldl_joints each joined
  have whole : read now (bodyTexts f g) = restyled
      (h.connectAll now (g.connections.values.map edgeJoint)) (styled g.elements.values) := by
    rw [read, bodyTexts, List.foldl_append, List.foldl_append, outline, edges, foldl_styles now readable]
  have numbered : h.Numbered := by
    unfold Graph.Numbered
    rw [none]
    rfl
  have added : (h.connectAll now (g.connections.values.map edgeJoint)).connections.values.map
      Connection.drawn = h.connections.values.map Connection.drawn ++
        g.connections.values.map fun c => (reread c).drawn :=
    numbered.values_connectAll now fun c _ id => rfl
  have ids : g.elements.values.map (·.id) = g.elements.keys := by
    rw [Table.values, Table.keys, List.map_map]
    exact List.map_congr_left fun p there => (readable.nested.keyed p there).symm
  rw [whole]
  constructor
  · rw [styled, restyled_filter]
    refine entries_restyled_redraw ?_ forested.among (ids ▸ g.elements.nodup) readable.styles
    rw [Graph.elements_connectAll, entries]
  · rw [connections_restyled, added, none]
    rfl

section

variable (redrawn : Redrawn now g f h) (forested : IsForested g f)

include redrawn

theorem get?_redraw : ∀ e ∈ ((pen now (·.style)).redraw 0 f).preorder, h.elements.get? e.id = some e := by
  intro e there
  rw [Table.get?_eq_some_iff, redrawn.entries]
  exact List.mem_map.2 ⟨e, there, rfl⟩

theorem keys_redrawn : h.elements.keys = f.ids := by rw [Table.keys, redrawn.entries, Pen.keys_redraw]

include forested

/-- A graph that is drawn again is printed as it was. -/
theorem sourceLines_redrawn : sourceLines h = sourceLines g := by
  have distinct : ((pen now (·.style)).redraw 0 f).ids.Nodup := by
    rw [Pen.ids_redraw]
    exact forested.distinct
  have outline := Outline.ofElements_of_shows
    (Pen.shows_redraw (pen now (·.style)) 0 f (get?_redraw redrawn)) distinct redrawn.entries
  have values : h.elements.values = ((pen now (·.style)).redraw 0 f).preorder := by
    rw [Table.values, redrawn.entries, Forest.entries, List.map_map]
    exact List.map_id _
  have edges : h.connections.values.map edgeText = g.connections.values.map edgeText := by
    have read : h.connections.values.map edgeText = (g.connections.values.map reread).map edgeText :=
      map_eq_of_view (fun _ _ => edgeText_of_drawn) (by rw [redrawn.connections, List.map_map]; rfl)
    rw [read, List.map_map]
    refine List.map_congr_left fun c there => ?_
    rw [Function.comp_apply, edgeText_reread (forested.readable.texts c there)]
  have inOrder : styled f.preorder = styled g.elements.values := by
    rw [← Forest.filterMap_items f 1, ← forested.outline]
    exact forested.readable.order
  have styles : (styled h.elements.values).map styleText = (styled g.elements.values).map styleText := by
    rw [values, ← inOrder]
    exact map_styleText_redraw f 0
  rw [sourceLines_eq, sourceLines_eq, outline, map_itemLine_redraw, forested.outline, edges, styles]

end

/-- A readable diagram is read back, drawn again and printed as it was. -/
theorem parse_print_of_readable (now : Instant) {d : Diagram} (flowchart : d.dialect = .flowchart)
    (readable : IsReadable d.toGraph) : ∃ d' f, parse now (DiagramText.print d) = .ok d' ∧
      d'.dialect = .flowchart ∧ IsForested d.toGraph f ∧ Redrawn now d.toGraph f d'.toGraph ∧
        DiagramText.print d' = DiagramText.print d := by
  obtain ⟨f, forested⟩ := readable.exists_forest
  obtain ⟨statements, body⟩ := forested.lines
  have redrawn := redrawn_read now forested
  have parsed := parse_source now (isHeader_headerText (printedDirection d))
    (dialectOf_headerText (printedDirection d)) d.metadata statements
  rw [← print_eq_source flowchart, body] at parsed
  refine ⟨_, f, parsed, rfl, forested, redrawn, ?_⟩
  have again : sourceLines (Dialect.flowchart.read now (bodyTexts f d.toGraph)) = sourceLines d.toGraph :=
    sourceLines_redrawn redrawn forested
  rw [print_eq_source flowchart, print_eq_source rfl]
  simp only [printedDirection, Diagram.ofGraph, Diagram.recount, Registry.metadataOf, if_true, direction?_headerText,
    Option.getD_some, again]
  rw [Layout.source, Layout.source]
  congr 3
  exact Layout.usual.titleLines_shownTitle? rfl

/-! ### The same drawing -/

/-- Two elements that are drawn alike. -/
structure SameElement (e e' : Element) : Prop where
  id : e'.id = e.id
  label : e'.label = e.label
  kind : e'.kind = e.kind
  shape : e.kind = .node → e'.shape? = some (shapeOf e).key
  listed : e.kind = .container → e'.listed Element.childrenKey = e.listed Element.childrenKey

/-- A graph that flowchart source can carry. -/
structure IsTextual (g : Graph) : Prop where
  nested : Outline.Nested g.elements
  kinds : ∀ e ∈ g.elements.values, e.kind = .node ∨ e.kind = .container
  names : ∀ e ∈ g.elements.values, IsWord e.id ∧ e.id ≠ "subgraph"
  labels : ∀ e ∈ g.elements.values, IsLabel e.label
  unstyled : ∀ e ∈ g.elements.values, e.style = ∅
  listed : ∀ e ∈ g.elements.values, e.kind = .container →
    ∀ id ∈ e.listed Element.childrenKey, g.hasElement id
  joined : g.Closed
  arrows : ∀ c ∈ g.connections.values, (Arrow.ofKey? c.kind).isSome
  texts : ∀ c ∈ g.connections.values, IsLabel c.label ∧ Text.trimmed c.label = c.label

/-- Two graphs that are drawn alike, but for the order of their elements. -/
structure SameDrawing (g h : Graph) : Prop where
  ids : h.elements.keys.Perm g.elements.keys
  elements : ∀ e ∈ g.elements.values, ∃ e', h.element? e.id = some e' ∧ SameElement e e'
  connections : h.connections.values.map Connection.drawn = g.connections.values.map Connection.drawn

theorem IsTextual.readable (textual : IsTextual g) : IsReadable g where
  nested := textual.nested
  words e there := (textual.names e there).1
  labels e there := (textual.labels e there).keeps
  closed := textual.joined
  sources c there := by
    have joined := textual.joined c there
    rw [Graph.joins, Bool.and_eq_true] at joined
    obtain ⟨e, found⟩ := Option.isSome_iff_exists.1 joined.1
    rw [← Outline.id_of_get? textual.nested.keyed found]
    exact (textual.names e (Table.mem_values_of_get? found)).2
  arrows := textual.arrows
  texts c there := (textual.texts c there).2
  styles e there := textual.unstyled e there ▸ isStyle_empty
  whole e there := by
    obtain ⟨among, some⟩ := mem_of_mem_styled there
    rw [textual.unstyled e among] at some
    cases some
  order := by
    have none {es : List Element} (among : ∀ e ∈ es, e ∈ g.elements.values) : styled es = [] := by
      rw [styled, List.filter_eq_nil_iff]
      intro e there
      rw [textual.unstyled e (among e there)]
      decide
    obtain ⟨f, outline, shown, -⟩ := Outline.exists_shown textual.nested
    rw [outline, Forest.filterMap_items, none fun e there => Table.mem_values_of_get? (shown.get? e there),
      none fun e there => there]

/-- Each element of a textual graph is drawn as it is. -/
theorem sameElement_redraw (now : Instant) (textual : IsTextual g) (forested : IsForested g f) {e : Element}
    (there : e ∈ g.elements.values) :
    ∃ e' ∈ ((pen now (·.style)).redraw 0 f).preorder, SameElement e e' := by
  have label : carried e.label = e.label := (textual.labels e there).carried
  rcases Pen.mem_redraw forested.shown (forested.mem_preorder there) with
    ⟨other, n, drawn⟩ | ⟨box, n, drawn⟩
  · have node := (textual.kinds e there).resolve_right other
    exact ⟨_, drawn, rfl, (label_leaf n e).trans label, node.symm, fun _ => shape?_leaf n e,
      fun box => absurd box other⟩
  · refine ⟨_, drawn, Pen.group_id _, ?_, (Pen.group_kind _).trans box.symm, fun node => ?_, fun _ => ?_⟩
    · rw [label_group, label]
    · rw [node] at box
      cases box
    · rw [Pen.listed_group]
      exact List.filter_eq_self.2 fun id listed => textual.listed e there box id listed

theorem sameDrawing_redraw (textual : IsTextual g) (forested : IsForested g f) (redrawn : Redrawn now g f h) :
    SameDrawing g h := by
  refine ⟨keys_redrawn redrawn ▸ forested.all, fun e there => ?_, ?_⟩
  · obtain ⟨e', drawn, same⟩ := sameElement_redraw now textual forested there
    exact ⟨e', same.id ▸ get?_redraw redrawn e' drawn, same⟩
  · rw [redrawn.connections]
    apply List.map_congr_left
    intro c there
    have label : carried c.label = c.label := (textual.texts c there).1.carried
    simp only [reread, label]

/-- Flowchart source carries the diagram: printed and read again, it draws the same elements and
connections, and is printed as the same source. -/
theorem parse_print (now : Instant) {d : Diagram} (flowchart : d.dialect = .flowchart)
    (textual : IsTextual d.toGraph) :
    ∃ d', parse now (DiagramText.print d) = .ok d' ∧ d'.dialect = .flowchart ∧
      SameDrawing d.toGraph d'.toGraph ∧ DiagramText.print d' = DiagramText.print d := by
  obtain ⟨d', f, parsed, dialect, forested, redrawn, printed⟩ :=
    parse_print_of_readable now flowchart textual.readable
  exact ⟨d', parsed, dialect, sameDrawing_redraw textual forested redrawn, printed⟩

/-! ### One drawing -/

/-- The subgraph that is drawn for an element, listing some ids. -/
def drawnGroup (now : Instant) (e : Element) (listed : List String) : Element :=
  (Draft.newGroup now e.id e.label).setProperty Element.childrenKey (.ofStrings listed)

/-- A node in a group and one beside it, with an arrow between them; most labels need quotes. -/
def sample : Diagram := .ofGraph .flowchart
  ⟨⟨[("all", drawnGroup .epoch (.create .epoch "all" .container "Any [one]") ["first"]),
      ("second", .node .epoch "second" "end"),
      ("first", (Element.node .epoch "first" "say \"go\"; stop").setProperty Element.shapeKey
        (.str "diamond"))], by decide⟩,
    ⟨[("c", { Connection.create .epoch "c" "first" "second" "dotted_arrow" with label := "a | b" })],
      by decide⟩⟩ (.create .epoch)

theorem acyclic_sample (id : String) : ¬ Relation.TransGen (Outline.Lists sample.elements) id id :=
  Outline.acyclic_of_ranked (by decide) (fun id => if id = "first" then 1 else 0) (by decide) id

theorem isTextual_sample : IsTextual sample.toGraph where
  nested := ⟨by decide, by decide, acyclic_sample⟩
  kinds := by decide
  names := by decide
  labels := by decide
  unstyled := by decide
  listed := by decide
  joined := by unfold Graph.Closed; decide
  arrows := by decide
  texts := by decide

theorem parse_print_sample : ∃ d', parse .epoch (DiagramText.print sample) = .ok d' ∧
    d'.dialect = .flowchart ∧ SameDrawing sample.toGraph d'.toGraph ∧
      DiagramText.print d' = DiagramText.print sample :=
  parse_print .epoch rfl isTextual_sample

end Flowchart
end DiagramText
