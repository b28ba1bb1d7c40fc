import DiagramText.Proofs.Entities.Block
import DiagramText.Proofs.Relayout

/-! Entity-relationship source formatted again, whatever was read. An attribute that is a comment where
it is printed is lost, but no attribute ends the block in which it is printed. So all entities come
back, and all relationships in their order, with their labels as quotes carry them. -/
namespace DiagramText.Entities

open DiagramText.Graph (Growth)

variable {now : Instant} {g h k : Graph} {e : Element} {lines : List String} {name : String}

/-! ### Lines that connect nothing -/

/-- The graph has grown by elements alone. -/
structure Fills (g h : Graph) : Prop where
  grown : Growth g h
  connections : h.connections = g.connections

theorem Fills.refl (g : Graph) : Fills g g := ⟨.same, rfl⟩

theorem Fills.trans (first : Fills g h) (second : Fills h k) : Fills g k :=
  ⟨first.grown.trans second.grown, second.connections.trans first.connections⟩

namespace Draft

theorem fills_ensure (now : Instant) (g : Graph) (name : String) : Fills g (ensure now g name) := by
  refine ⟨growth_ensure now g name, ?_⟩
  unfold ensure Graph.ensure
  split <;> rfl

theorem fills_addAttributes (g : Graph) (name : String) (attributes : List Attribute) :
    Fills g (addAttributes g name attributes) := by
  refine ⟨growth_addAttributes g name attributes, ?_⟩
  unfold addAttributes
  induction attributes generalizing g with
  | nil => rfl
  | cons a as ih => exact ih _

/-- Lines without a closing brace leave the block open. -/
theorem foldl_readLine_open (free : ∀ line ∈ lines, '\x7d' ∉ line.toList) :
    ∃ h, Fills g h ∧ lines.foldl (readLine now) ⟨g, some name⟩ = ⟨h, some name⟩ := by
  induction lines generalizing g with
  | nil => exact ⟨g, .refl g, rfl⟩
  | cons line lines ih =>
    rw [List.forall_mem_cons] at free
    obtain ⟨h, fills, rest⟩ := @ih (addLine g name (Text.trim line.toList)) free.2
    refine ⟨h, (fills_addAttributes g name _).trans fills, ?_⟩
    rw [List.foldl_cons, readLine_inside free.1, rest]

end Draft

/-! ### The lines of an entity -/

/-- The printed lines of an entity bring it back, and connect nothing. -/
theorem foldl_readLine_block (read : IsReadEntity e) (clean : ∀ a ∈ attributesOf e, ¬ a.HasBrace) :
    ∃ h, Fills g h ∧ h.hasElement e.id ∧
      ((Placed.block e.id (attributeTexts e)).flatMap fun p => Source.bodyLines p.text).foldl
        (Draft.readLine now) ⟨g, none⟩ = ⟨h, none⟩ := by
  have ensured := Draft.fills_ensure now g e.id
  have there := Draft.hasElement_ensure now g e.id
  unfold Placed.block
  split
  · refine ⟨_, ensured, there, ?_⟩
    rw [List.flatMap_singleton, (says_alone read.name).toIsLine.bodyLines, List.foldl_cons, List.foldl_nil,
      Draft.readLine_said (says_alone read.name)]
    rfl
  · next texts some =>
    have free : ∀ line ∈ (attributeTexts e).flatMap Source.bodyLines, '\x7d' ∉ line.toList := by
      intro line given brace
      obtain ⟨text, among, inside⟩ := List.mem_flatMap.1 given
      rw [attributeTexts_eq] at among
      obtain ⟨a, known, rfl⟩ := List.mem_map.1 among
      have printed := Source.mem_of_mem_bodyLines inside brace
      rw [a.toList_text] at printed
      exact brace_not_mem_chars (read.attributes a known).keys (clean a known) printed
    obtain ⟨h, fills, filled⟩ := @Draft.foldl_readLine_open now (Draft.ensure now g e.id) _ e.id free
    refine ⟨h, ensured.trans fills, fills.grown.hasElement there, ?_⟩
    have opened : Draft.readLine now ⟨g, none⟩ (e.id ++ " \x7b") = ⟨Draft.ensure now g e.id, e.id⟩ :=
      Draft.readLine_said (says_opened read.name)
    have closing : Source.bodyLines "\x7d" = ["\x7d"] := by decide
    rw [List.flatMap_append, List.flatMap_append, List.flatMap_singleton, List.flatMap_singleton, List.flatMap_map,
      (says_opened read.name).toIsLine.bodyLines, closing, List.foldl_append, List.foldl_append, List.foldl_cons,
      List.foldl_nil, List.foldl_cons, List.foldl_nil, opened, filled, Draft.readLine_brace]

/-- The printed lines of entities bring all of them back. -/
theorem foldl_readLine_blocks {es : List Element} (read : ∀ e ∈ es, IsReadEntity e)
    (clean : ∀ e ∈ es, ∀ a ∈ attributesOf e, ¬ a.HasBrace) :
    ∃ h, Fills g h ∧ (∀ e ∈ es, h.hasElement e.id) ∧
      ((es.flatMap fun e => Placed.block e.id (attributeTexts e)).flatMap fun p => Source.bodyLines p.text).foldl
        (Draft.readLine now) ⟨g, none⟩ = ⟨h, none⟩ := by
  induction es generalizing g with
  | nil => exact ⟨g, .refl g, List.forall_mem_nil _, rfl⟩
  | cons e es ih =>
    rw [List.forall_mem_cons] at read clean
    obtain ⟨h, fills, there, first⟩ := @foldl_readLine_block now g e read.1 clean.1
    obtain ⟨k, later, others, rest⟩ := @ih h read.2 clean.2
    refine ⟨k, fills.trans later, List.forall_mem_cons.2 ⟨later.grown.hasElement there, others⟩, ?_⟩
    rw [List.flatMap_cons, List.flatMap_append, List.foldl_append, first, rest]

/-! ### The whole source -/

/-- The ends of a relationship and its label. -/
def tie (c : Connection) : String × String × String := (c.source, c.target, c.label)

/-- Read again, the lines of a graph give back its entities, and its relationships in their order. -/
theorem read_bodyTexts (now : Instant) (keyed : g.Keyed) (closed : g.Closed) (read : IsRead g) (clean : Braceless g) :
    (∀ e ∈ g.elements.values, (Entities.read now (Dialect.entities.bodyTexts g)).hasElement e.id) ∧
      (Entities.read now (Dialect.entities.bodyTexts g)).connections.values.map tie =
        g.connections.values.map fun c => tie (reread c) := by
  obtain ⟨h, fills, there, blocks⟩ := @foldl_readLine_blocks now .empty _ read.elements clean.elements
  have names : ∀ c ∈ g.connections.values, IsName c.source ∧ IsName c.target := fun c known =>
    Graph.ends_of_joins keyed.elements (fun e among => (read.elements e among).name) (closed c known)
  have joined : ∀ c ∈ g.connections.values, h.joins c := by
    intro c known
    refine Graph.joins_mono (fun id has => ?_) (closed c known)
    obtain ⟨e, found⟩ := Option.isSome_iff_exists.1 has
    have own : id = e.id := keyed.elements _ (Table.get?_eq_some_iff.1 found)
    exact own ▸ there e (Table.mem_values_of_get? found)
  have numbered : h.Numbered := fills.grown.numbered Graph.numbered_empty
  have lines : ((g.connections.values.map fun c => Placed.mk 1 (relationshipText c)).flatMap
      fun p => Source.bodyLines p.text) = g.connections.values.map relationshipText := by
    rw [List.flatMap_map, List.map_eq_flatMap]
    exact List.flatMap_congr fun c known =>
      (says_relationshipText (names c known).1 (names c known).2).toIsLine.bodyLines
  have whole : Entities.read now (Dialect.entities.bodyTexts g) =
      h.connectAll now (g.connections.values.map fun c => Draft.joint (reread c)) := by
    rw [Entities.read, Dialect.bodyTexts_eq, Dialect.statements, statements, List.flatMap_append, List.foldl_append,
      lines, Draft.empty, blocks]
    exact congrArg Draft.graph <|
      Graph.foldl_joints (fun k c known ready => Draft.readLine_relationship ready (names c known)) joined
  rw [whole]
  constructor
  · intro e known
    rw [Graph.hasElement, Graph.elements_connectAll]
    exact there e known
  · have added : (h.connectAll now (g.connections.values.map fun c => Draft.joint (reread c))).connections.values.map tie =
        h.connections.values.map tie ++ g.connections.values.map fun c => tie (reread c) :=
      numbered.values_connectAll now fun c _ id => rfl
    rw [added, fills.connections]
    rfl

/-- An entity-relationship diagram that is read comes back with its relationships when it is printed and
read again. -/
theorem parse_print_ties {now : Instant} (later : Instant) {text : String} {d : Diagram}
    (parsed : parse now text = .ok d) (entities : d.dialect = .entities) :
    ∃ d', parse later (DiagramText.print d) = .ok d' ∧ d'.dialect = .entities ∧
      d'.connections.values.map tie = d.connections.values.map fun c => tie (reread c) := by
  obtain ⟨lines, graph, unbroken⟩ := exists_lines_of_parse parsed entities
  obtain ⟨d', reparsed, same, back, -⟩ := exists_parse_print later .entities .usual d.toGraph d.metadata
  have printed : DiagramText.print d = Dialect.entities.print .usual d.toGraph d.metadata := by
    rw [DiagramText.print, entities]
  have ties := (read_bodyTexts later (graph ▸ Dialect.keyed_read .entities now lines)
    (graph ▸ Dialect.closed_read .entities now lines) (graph ▸ isRead_read now unbroken)
    (graph ▸ braceless_read now lines)).2
  replace back : d'.toGraph = Entities.read later (Dialect.entities.bodyTexts d.toGraph) := back
  rw [← back] at ties
  exact ⟨d', printed ▸ reparsed, same, ties⟩

end DiagramText.Entities
