import DiagramText.Proofs.Flowchart.Lasting
import DiagramText.Proofs.Flowchart.RoundTrip

/-! Flowchart source that is read line by line, whatever its elements are named. An edge that starts at a
node with the name of the keyword is read as the opener of a subgraph and not as an edge. It takes nothing
away: all elements come back with their labels, and all other edges. -/
namespace DiagramText.Flowchart

open DiagramText.Graph (Lasts)
open Outline (Forest Item Pen)
open Reader (Reads Stops)
open Text (EndsSolid IsWord)

variable {c : Connection} {cs : List Connection} {d : Draft} {e : Element} {f : Forest} {g : Graph} {now : Instant}

/-! ### Edges -/

/-- What stands behind the source of an edge and a blank. -/
theorem exists_edgeTail (target : IsWord c.target) : ∃ tail, (edgeText c).toList = c.source.toList ++ ' ' :: tail ∧
    Stops Text.isInlineBlank tail ∧ Text.trim tail = tail := by
  have sign : ∀ c ∈ ['-', '=', '~'], Text.isBlank c = false := Text.forall_mem_of_all rfl
  obtain ⟨first, more, token, among⟩ := (Arrow.ofKey c.kind).token_first
  have tight (middle : List Char) : Text.trim ((Arrow.ofKey c.kind).token.toList ++ (middle ++ c.target.toList)) =
      (Arrow.ofKey c.kind).token.toList ++ (middle ++ c.target.toList) := by
    rw [token, List.cons_append, ← List.append_assoc]
    exact Text.trim_cons_append first _ (sign first among) target.some (Text.trim_of_trimmed target.trimmed)
  cases labelled : c.hasLabel with
  | false => exact ⟨_, toList_edgeText_bare labelled, stops_token _ _, tight [' ']⟩
  | true =>
    refine ⟨_, toList_edgeText_labelled labelled, stops_token _ _, ?_⟩
    have whole := tight ('|' :: ((labelText c.label).toList ++ ['|', ' ']))
    simpa using whole

/-- An edge that starts at a node named by the keyword is read as the opener of a subgraph. -/
theorem says_edgeText_keyword (keyword : c.source = "subgraph") (target : IsWord c.target) :
    ∃ id label, Says (edgeText c) (.subgraph id label) := by
  have source : IsWord c.source := keyword ▸ by decide
  obtain ⟨tail, split, stops, tight⟩ := exists_edgeTail target
  rw [keyword] at split
  exact ⟨_, _, isPiece_edgeText source target, split ▸ (reads_opener stops tight).orElse⟩

/-- Both ends of a connection. -/
def ends (c : Connection) : String × String := (c.source, c.target)

/-- What the line of an edge with any label makes a connection from. -/
def plainJoint (c : Connection) : Graph.Joint :=
  ⟨c.source, c.target, (Arrow.ofKey c.kind).key,
    (if c.hasLabel then Reader.nonEmpty (Text.trimmed (carried c.label)) else none).getD "", []⟩

theorem readLine_edge (now : Instant) (joined : d.graph.joins c) (source : IsWord c.source) (target : IsWord c.target)
    (other : c.source ≠ "subgraph") :
    d.readLine now (edgeText c) = ⟨d.graph.connectAll now [plainJoint c], d.groups⟩ := by
  rw [Graph.joins, Bool.and_eq_true] at joined
  rw [(says_edgeText_any source other target).readLine]
  exact Draft.apply_hop joined _ _

/-! ### What lasts -/

def SameLabel (e x : Element) : Prop := x.label = e.label

/-- Lists and styles leave the label as it is. -/
theorem lasting_label : Lasting SameLabel where
  refl _ := rfl
  trans _ _ _ first second := Eq.trans second first
  lists _ _ := Element.append_label
  styles e ds := by
    unfold SameLabel Draft.setStyles
    induction ds generalizing e with
    | nil => rfl
    | cons p ds ih => exact ih _

/-- What lines do to a draft that adds nothing but the edges among them. -/
structure Linked (cs : List Connection) (d d' : Draft) : Prop where
  labels : Lasts SameLabel d.graph d'.graph
  ends : d'.graph.connections.values.map ends =
    d.graph.connections.values.map ends ++ (cs.filter fun c => c.source ≠ "subgraph").map ends
  keys : (∀ c ∈ cs, c.source ≠ "subgraph") → d'.graph.elements.keys = d.graph.elements.keys

namespace Linked

variable {as bs : List Connection} {d' d'' : Draft}

theorem refl (d : Draft) : Linked [] d d := ⟨.refl lasting_label.refl _, by simp, fun _ => rfl⟩

theorem trans (first : Linked as d d') (second : Linked bs d' d'') : Linked (as ++ bs) d d'' where
  labels := first.labels.trans lasting_label.trans second.labels
  ends := by rw [second.ends, first.ends, List.append_assoc, ← List.map_append, ← List.filter_append]
  keys others := by
    rw [List.forall_mem_append] at others
    exact (second.keys others.2).trans (first.keys others.1)

end Linked

theorem connections_openGroup (d : Draft) (id label : String) :
    (d.openGroup now id label).graph.connections = d.graph.connections := by
  rw [Draft.openGroup_eq]
  split
  · rfl
  · exact Draft.enlist_connections ..

/-- The line of one edge. -/
theorem linked_readLine (now : Instant) (numbered : d.graph.Numbered) (joined : d.graph.joins c)
    (words : IsWord c.source ∧ IsWord c.target) : Linked [c] d (d.readLine now (edgeText c)) := by
  by_cases keyword : c.source = "subgraph"
  · obtain ⟨id, label, said⟩ := says_edgeText_keyword keyword words.2
    rw [said.readLine]
    refine ⟨lasting_label.openGroup now d id label, ?_, fun others => absurd keyword (others c (by simp))⟩
    rw [Draft.apply, connections_openGroup]
    simp [keyword]
  · rw [readLine_edge now joined words.1 words.2 keyword]
    have elements := Graph.elements_connectAll now d.graph [plainJoint c]
    have added : (d.graph.connectAll now ([c].map plainJoint)).connections.values.map ends =
        d.graph.connections.values.map ends ++ [c].map ends := numbered.values_connectAll now fun _ _ _ => rfl
    refine ⟨fun id e found => ⟨e, ?_, rfl⟩, ?_, fun _ => congrArg Table.keys elements⟩
    · rw [Graph.element?, elements]
      exact found
    · rw [List.map_singleton] at added
      simpa [keyword] using added

/-- The lines of edges, one after the other. -/
theorem linked_foldl (now : Instant) (words : ∀ c ∈ cs, IsWord c.source ∧ IsWord c.target)
    (numbered : d.graph.Numbered) (joined : ∀ c ∈ cs, d.graph.joins c) :
    Linked cs d ((cs.map edgeText).foldl (Draft.readLine now) d) := by
  induction cs generalizing d with
  | nil => exact .refl d
  | cons c cs ih =>
    rw [List.forall_mem_cons] at words joined
    have grown := Draft.growth_readLine now d (edgeText c)
    exact (linked_readLine now numbered joined.1 words.1).trans <| ih words.2 (grown.numbered numbered)
      fun x there => Graph.joins_mono (fun _ => grown.hasElement) (joined.2 x there)

/-- The lines of styles, one after the other. -/
theorem linked_styles (now : Instant) {es : List Element} (words : ∀ e ∈ es, IsWord e.id)
    (filled : ∀ e ∈ es, e.style.isEmpty = false) (uncut : ∀ e ∈ es, IsUncut (styleText e)) (d : Draft) :
    Linked [] d ((es.map fun e => Text.trimmed (styleText e)).foldl (Draft.readLine now) d) := by
  induction es generalizing d with
  | nil => exact .refl d
  | cons e es ih =>
    rw [List.forall_mem_cons] at words filled uncut
    obtain ⟨ds, read⟩ := exists_readLine_styleText filled.1 words.1 uncut.1 now
    have first : Linked [] d (d.apply now (.style [e.id] ds)) :=
      ⟨lasting_label.restyle d.graph [e.id] ds, by rw [List.filter_nil, List.map_nil, List.append_nil]; rfl,
        fun _ => Graph.keys_modifyElement ..⟩
    rw [List.map_cons, List.foldl_cons, read]
    exact first.trans (ih words.2 filled.2 uncut.2 _)

/-! ### The whole source -/

/-- A graph whose source is read line by line. -/
structure IsLegible (g : Graph) : Prop where
  nested : Outline.Nested g.elements
  words : ∀ e ∈ g.elements.values, IsWord e.id
  labels : ∀ e ∈ g.elements.values, Keeps e.label
  closed : g.Closed
  uncut : ∀ e ∈ styled g.elements.values, IsUncut (styleText e)

/-- What is read of a legible graph. -/
structure Reread (g h : Graph) : Prop where
  labels : ∀ e ∈ g.elements.values, ∃ x, h.element? e.id = some x ∧ x.label = carried e.label
  ends : h.connections.values.map ends = (g.connections.values.filter fun c => c.source ≠ "subgraph").map ends
  keys : (∀ c ∈ g.connections.values, c.source ≠ "subgraph") → h.elements.keys.Perm g.elements.keys

/-- A drawn forest has every element under its id, with the label that is read of its own. -/
theorem exists_drawn_label {h : Graph} (shown : f.Shows g.elements) (there : e ∈ f.preorder)
    (drawn : h.elements.entries = ((pen now fun _ => ∅).redraw 0 f).entries) :
    ∃ x, h.element? e.id = some x ∧ x.label = carried e.label := by
  let p : Pen := pen now fun _ => ∅
  have under {x : Element} (among : x ∈ (p.redraw 0 f).preorder) : h.element? x.id = some x := by
    rw [Graph.element?, Table.get?_eq_some_iff, drawn]
    exact List.mem_map.2 ⟨x, among, rfl⟩
  rcases p.mem_redraw shown there with ⟨-, n, among⟩ | ⟨-, n, among⟩
  · exact ⟨p.leaf n e, p.leaf_id n e ▸ under among, label_leaf n e⟩
  · exact ⟨_, p.group_id _ ▸ under among, label_group n e _⟩

/-- The lines of a legible graph without their indentation. -/
def legibleTexts (f : Forest) (g : Graph) : List String :=
  (f.items 1).map itemText ++ g.connections.values.map edgeText ++
    (styled g.elements.values).map fun e => Text.trimmed (styleText e)

theorem IsLegible.lines (legible : IsLegible g) (outline : Outline.ofElements g.elements (fun _ => false) = f.items 1)
    (among : ∀ e ∈ f.preorder, e ∈ g.elements.values) :
    (∀ line ∈ sourceLines g, Source.IsStatement line.toList) ∧
      (sourceLines g).map Text.trimmed = legibleTexts f g := by
  rw [legibleTexts, ← outline]
  refine statements_of_sourceLines (fun item there => ?_) (fun c there => ?_) fun e there => ?_
  · exact (says_items (fun e there => legible.words e (among e there)) (fun e there => legible.labels e (among e there))
      item (outline ▸ there)).toIsLine
  · obtain ⟨source, target⟩ := Graph.ends_of_joins legible.nested.keyed legible.words (legible.closed c there)
    exact (isPiece_edgeText source target).toIsLine
  · exact isStatement_styleText (mem_of_mem_styled there).2 (legible.uncut e there)

/-- The lines of a legible graph give back its elements and all edges but those that open subgraphs. -/
theorem IsLegible.reread (legible : IsLegible g) (now : Instant) (shown : f.Shows g.elements)
    (all : f.ids.Perm g.elements.keys) : Reread g (read now (legibleTexts f g)) := by
  have among : ∀ e ∈ f.preorder, e ∈ g.elements.values :=
    fun e there => Table.mem_values_of_get? (shown.get? e there)
  obtain ⟨h, outline, drawn, none⟩ := foldl_items now (fun e there => legible.words e (among e there))
    (fun e there => legible.labels e (among e there)) (all.nodup_iff.2 g.elements.nodup)
  have keys : h.elements.keys = f.ids := by rw [Table.keys, drawn, Pen.keys_redraw]
  have joined : ∀ c ∈ g.connections.values, h.joins c := by
    intro c there
    refine Graph.joins_mono (fun id has => ?_) (legible.closed c there)
    rw [Graph.hasElement_iff] at has ⊢
    exact keys ▸ all.mem_iff.2 has
  have numbered : h.Numbered := by
    unfold Graph.Numbered
    rw [none]
    rfl
  have edges := @linked_foldl _ ⟨h, []⟩ now
    (fun c there => Graph.ends_of_joins legible.nested.keyed legible.words (legible.closed c there)) numbered joined
  have styles := linked_styles now (fun e there => legible.words e (mem_of_mem_styled there).1)
    (fun e there => (mem_of_mem_styled there).2) legible.uncut
    ((g.connections.values.map edgeText).foldl (Draft.readLine now) ⟨h, []⟩)
  have linked := edges.trans styles
  rw [List.append_nil] at linked
  rw [read, legibleTexts, List.foldl_append, List.foldl_append, outline]
  refine ⟨fun e there => ?_, ?_, fun others => ?_⟩
  · obtain ⟨x, found, label⟩ := exists_drawn_label shown (shown.mem_preorder all legible.nested.keyed there) drawn
    obtain ⟨y, there, same⟩ := linked.labels e.id x found
    exact ⟨y, there, same.trans label⟩
  · rw [linked.ends, none]
    rfl
  · rw [linked.keys others, keys]
    exact all

/-- A legible flowchart is printed and read again. -/
theorem parse_print_of_legible (now : Instant) {d : Diagram} (flowchart : d.dialect = .flowchart)
    (legible : IsLegible d.toGraph) : ∃ d', parse now (DiagramText.print d) = .ok d' ∧ d'.dialect = .flowchart ∧
      Reread d.toGraph d'.toGraph := by
  obtain ⟨f, outline, shown, all⟩ := Outline.exists_shown legible.nested
  obtain ⟨statements, body⟩ := legible.lines outline fun e there => Table.mem_values_of_get? (shown.get? e there)
  have parsed := parse_source now (isHeader_headerText (printedDirection d))
    (dialectOf_headerText (printedDirection d)) d.metadata statements
  rw [← print_eq_source flowchart, body] at parsed
  exact ⟨_, parsed, rfl, legible.reread now shown all⟩

end DiagramText.Flowchart
