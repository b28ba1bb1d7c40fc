import DiagramText.Proofs.Editor.Removal

/-! Adoption of a diagram by an editor. The connections that miss an end are looked for in the table and
taken out by their ids. So it is told by keys and ids together which connections stay: just those that
have both ends, if the ids of the others tell under which keys these are stored. -/
namespace DiagramText

/-- The connections that miss an end are known by their ids. -/
structure Graph.Traceable (g : Graph) : Prop where
  /-- Whatever misses an end is stored under the id of something that does. -/
  found : ∀ p ∈ g.connections.entries, g.joins p.2 = false → p.1 ∈ g.dangling
  /-- Under such an id nothing else is stored. -/
  spared : ∀ p ∈ g.connections.entries, g.joins p.2 = true → p.1 ∉ g.dangling

/-- Connections under their own ids are known by them. -/
theorem Graph.Filed.traceable {g : Graph} (filed : g.Filed) : g.Traceable := by
  have listed {p : String × Connection} (there : p ∈ g.connections.entries) :
      p.1 ∈ g.dangling ↔ (!g.joins p.2) = true := Table.mem_map_filter_values_iff filed there
  constructor
  · intro p there loose
    rw [listed there, loose]
    rfl
  · intro p there joined
    rw [listed there, joined]
    exact Bool.false_ne_true

namespace Editor

variable {d : Diagram} {p : String × Connection}

/-- What stays is what has no key among the ids. -/
theorem entries_ofDiagram (d : Diagram) : (ofDiagram d).connections.entries =
    d.connections.entries.filter fun p => p.1 ∉ d.dangling :=
  Table.entries_foldl_erase d.dangling d.connections

theorem mem_entries_ofDiagram_iff : p ∈ (ofDiagram d).connections.entries ↔
    p ∈ d.connections.entries ∧ p.1 ∉ d.dangling := by
  simp [entries_ofDiagram]

theorem closed_ofDiagram_iff : (ofDiagram d).diagram.toGraph.Closed ↔
    ∀ p ∈ d.connections.entries, d.toGraph.joins p.2 = false → p.1 ∈ d.dangling := by
  constructor
  · intro closed p there loose
    refine Classical.byContradiction fun absent => ?_
    have stays : p ∈ (ofDiagram d).connections.entries := mem_entries_ofDiagram_iff.2 ⟨there, absent⟩
    have joined : d.toGraph.joins p.2 = true := closed p.2 (Table.mem_values_iff.2 ⟨p, stays, rfl⟩)
    rw [joined] at loose
    cases loose
  · intro found c among
    obtain ⟨p, stays, rfl⟩ := Table.mem_values_iff.1 among
    obtain ⟨there, absent⟩ := mem_entries_ofDiagram_iff.1 stays
    rw [← Bool.not_eq_false]
    exact fun loose => absent (found p there loose)

theorem spares_ofDiagram_iff :
    (∀ p ∈ d.connections.entries, d.toGraph.joins p.2 = true → p ∈ (ofDiagram d).connections.entries) ↔
      ∀ p ∈ d.connections.entries, d.toGraph.joins p.2 = true → p.1 ∉ d.dangling := by
  refine forall_congr' fun p => forall_congr' fun there => forall_congr' fun _ => ?_
  rw [mem_entries_ofDiagram_iff, and_iff_right there]

/-- Just the connections with both ends stay exactly when the others are known by their ids. -/
theorem entries_ofDiagram_eq_filter_joins_iff : (ofDiagram d).connections.entries =
    d.connections.entries.filter (fun p => d.toGraph.joins p.2) ↔ d.toGraph.Traceable := by
  constructor
  · intro same
    have stays {p : String × Connection} (there : p ∈ d.connections.entries) :
        p.1 ∉ d.dangling ↔ d.toGraph.joins p.2 = true := by
      rw [← and_iff_right there (b := p.1 ∉ d.dangling), ← mem_entries_ofDiagram_iff, same, List.mem_filter,
        and_iff_right there]
    constructor
    · intro p there loose
      refine Classical.byContradiction fun absent => ?_
      rw [(stays there).1 absent] at loose
      cases loose
    · exact fun p there => (stays there).2
  · intro traceable
    rw [entries_ofDiagram]
    apply List.filter_congr
    intro p there
    cases joined : d.toGraph.joins p.2 with
    | false => simpa using traceable.found p there joined
    | true => simpa using traceable.spared p there joined

/-- An editor on a diagram has all of its elements, and right counts. Of the connections it has those
whose keys are no ids of connections that miss an end. So it has nothing that misses an end exactly when
all of that is found by the ids, it has all that has both ends exactly when nothing of it is found by
them, and it has just what has both ends, in its order, exactly when both hold, as they do when every
connection is stored under its own id. -/
theorem ofDiagram_drops_dangling (d : Diagram) :
    let ed := ofDiagram d
    ed.elements = d.elements ∧
      ed.diagram.metadata.elementCount = ed.elements.size ∧
      ed.diagram.metadata.connectionCount = ed.connections.size ∧
      ed.connections.entries = d.connections.entries.filter (fun p => p.1 ∉ d.dangling) ∧
      (ed.diagram.dangling = [] ↔
        ∀ p ∈ d.connections.entries, d.toGraph.joins p.2 = false → p.1 ∈ d.dangling) ∧
      ((∀ p ∈ d.connections.entries, d.toGraph.joins p.2 = true → p ∈ ed.connections.entries) ↔
        ∀ p ∈ d.connections.entries, d.toGraph.joins p.2 = true → p.1 ∉ d.dangling) ∧
      (ed.connections.entries = d.connections.entries.filter (fun p => d.toGraph.joins p.2) ↔
        d.toGraph.Traceable) ∧
      (d.toGraph.Filed → d.toGraph.Traceable) :=
  ⟨rfl, rfl, rfl, entries_ofDiagram d, Graph.dangling_eq_nil_iff.trans closed_ofDiagram_iff,
    spares_ofDiagram_iff, entries_ofDiagram_eq_filter_joins_iff, Graph.Filed.traceable⟩

/-- A connection to a missing element and one with both ends, each under the id of the other. -/
def crossed : Diagram :=
  let now := Instant.epoch
  { Diagram.create now .flowchart with
    elements := .ofList [("A", .node now "A" "A"), ("B", .node now "B" "B")]
    connections := .ofList [("c1", .create now "c2" "A" "Z" "default"),
      ("c2", .create now "c1" "A" "B" "default")] }

/-- What misses an end stays, and what has both ends goes. -/
theorem entries_ofDiagram_crossed :
    (ofDiagram crossed).connections.entries ≠
        crossed.connections.entries.filter (fun p => crossed.toGraph.joins p.2) ∧
      (ofDiagram crossed).connections.keys = ["c1"] ∧ (ofDiagram crossed).diagram.dangling = ["c2"] ∧
      (crossed.connections.filter fun _ c => crossed.toGraph.joins c).keys = ["c2"] := by
  decide +kernel

end Editor
end DiagramText
