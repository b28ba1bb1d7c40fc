import DiagramText.Proofs.Flowchart.RoundTrip
import DiagramText.Proofs.Flowchart.Soundness
import DiagramText.Proofs.Reading

/-! Formatting of flowcharts. What was read is printed, read and printed again as the same source, with
all its elements and connections, as long as four things do not come in between: a tab in a label that
is written without quotes, an edge that starts at a node with the name of a keyword, a semicolon in a
style that no quotes protect, and styles in another order than the outline. -/
namespace DiagramText.Flowchart

open Outline (Forest)

variable {g : Graph}

/-- A flowchart that formatting keeps as it is. -/
structure IsSteady (g : Graph) : Prop where
  labels : ∀ e ∈ g.elements.values, Keeps e.label
  sources : ∀ c ∈ g.connections.values, c.source ≠ "subgraph"
  styles : ∀ e ∈ styled g.elements.values,
    Text.unquotedPieces ';' false (styleText e).toList = [(styleText e).toList]
  order : styled ((Outline.ofElements g.elements fun _ => false).filterMap Outline.Item.element?) =
    styled g.elements.values

/-- The forest is what the table shows, in the order of the table. -/
structure Orders (f : Forest) (table : Table Element) : Prop where
  shown : f.Shows table
  distinct : f.ids.Nodup
  holds : table.entries = f.entries

instance (f : Forest) (table : Table Element) : Decidable (Orders f table) :=
  decidable_of_iff (f.Shows table ∧ f.ids.Nodup ∧ table.entries = f.entries)
    ⟨fun ⟨shown, distinct, holds⟩ => ⟨shown, distinct, holds⟩,
      fun ⟨shown, distinct, holds⟩ => ⟨shown, distinct, holds⟩⟩

theorem Orders.outline {f : Forest} (ordered : Orders f g.elements) :
    (Outline.ofElements g.elements fun _ => false) = f.items 1 :=
  Outline.ofElements_of_shows ordered.shown ordered.distinct ordered.holds

/-- Where the elements come in the order of the outline, so do their styles. -/
theorem Orders.styled {f : Forest} (ordered : Orders f g.elements) :
    styled ((Outline.ofElements g.elements fun _ => false).filterMap Outline.Item.element?) =
      styled g.elements.values := by
  have values : g.elements.values = f.preorder := by
    rw [Table.values, ordered.holds, Forest.entries, List.map_map]
    exact List.map_id _
  rw [ordered.outline, Forest.filterMap_items, values]

theorem Draft.Sound.readable {d : Draft} (sound : d.Sound) (closed : d.graph.Closed)
    (steady : IsSteady d.graph) : IsReadable d.graph where
  nested := sound.planted.nested
  words e there := (sound.elements e there).word
  labels := steady.labels
  closed := closed
  sources := steady.sources
  arrows c there := (sound.connections c there).1
  texts c there := (sound.connections c there).2
  styles e there := (sound.elements e there).style
  whole := steady.styles
  order := steady.order

/-- A flowchart that is read is the graph of a sound draft. -/
theorem exists_sound_of_parse {now : Instant} {text : String} {d : Diagram} (parsed : parse now text = .ok d)
    (flowchart : d.dialect = .flowchart) : ∃ draft : Draft, draft.Sound ∧ draft.graph = d.toGraph ∧ d.toGraph.Closed := by
  obtain ⟨lines, graph, unbroken⟩ := exists_lines_of_parse parsed flowchart
  exact ⟨_, Draft.sound_foldl_readLine Draft.sound_empty unbroken, graph.symm,
    graph ▸ Dialect.closed_read .flowchart now lines⟩

/-- A steady flowchart that is read, printed and read again has the same elements and as many
connections, and is printed as before. -/
theorem parse_print_of_steady {now : Instant} (later : Instant) {text : String} {d : Diagram}
    (parsed : parse now text = .ok d) (flowchart : d.dialect = .flowchart) (steady : IsSteady d.toGraph) :
    ∃ d', parse later (DiagramText.print d) = .ok d' ∧ d'.dialect = .flowchart ∧
      d'.elements.keys.Perm d.elements.keys ∧
      d'.connections.values.length = d.connections.values.length ∧
      DiagramText.print d' = DiagramText.print d := by
  obtain ⟨draft, sound, graph, closed⟩ := exists_sound_of_parse parsed flowchart
  have readable : IsReadable d.toGraph := by
    rw [← graph] at closed steady ⊢
    exact sound.readable closed steady
  obtain ⟨d', f, reparsed, same, forested, redrawn, printed⟩ :=
    parse_print_of_readable later flowchart readable
  have connections := congrArg List.length redrawn.connections
  rw [List.length_map, List.length_map] at connections
  exact ⟨d', reparsed, same, keys_redrawn redrawn ▸ forested.all, connections, printed⟩

/-- A subgraph named by free text and opened twice, a tab that stands in quotes, a node with the name of
a keyword, and a style. -/
def steadyLines : List String := ["subgraph My team", "a[\"x\ty]z\"]", "end", "subgraph My team", "b",
  "end", "a -->|\"go; now\"| style", "style a fill:#f00,stroke: red"]

def steadyText : String :=
  "flowchart LR\nsubgraph My team\n  a[\"x\ty]z\"]\nend\nsubgraph My team\nb\nend\n" ++
    "a -->|\"go; now\"| style\nstyle a fill:#f00,stroke: red"

/-- The forest of one element, or of four with two of them in the first. -/
def sampleForest (es : List Element) : Forest :=
  match es with
  | [only] => .leaf only .nil
  | [box, first, second, other] => .group box (.leaf first (.leaf second .nil)) (.leaf other .nil)
  | _ => .nil

theorem isSteady_sample : IsSteady (read .epoch steadyLines) where
  labels := by decide +kernel
  sources := by decide +kernel
  styles := by decide +kernel
  order := by
    have ordered : Orders (sampleForest (read .epoch steadyLines).elements.values)
        (read .epoch steadyLines).elements := by decide +kernel
    exact ordered.styled

theorem parse_print_of_steady_sample : ∃ d, parse .epoch steadyText = .ok d ∧ d.dialect = .flowchart ∧
    IsSteady d.toGraph ∧ ∃ d', parse .epoch (DiagramText.print d) = .ok d' ∧ d'.dialect = .flowchart ∧
      d'.elements.keys.Perm d.elements.keys ∧
      d'.connections.values.length = d.connections.values.length ∧
      DiagramText.print d' = DiagramText.print d := by
  have taken : Source.ofText? steadyText = some ⟨"flowchart LR", steadyLines, none⟩ := by decide +kernel
  have declared : (Registry.full).dialectOf "flowchart LR" = .ok .flowchart := rfl
  obtain ⟨d, parsed, flowchart, graph⟩ := Registry.exists_parse .epoch taken declared
  have steady : IsSteady d.toGraph := by
    rw [graph]
    exact isSteady_sample
  exact ⟨d, parsed, flowchart, steady, parse_print_of_steady .epoch parsed flowchart steady⟩

/-- A tab in a label that needs no other quotes is printed as it is, and the node is lost. -/
theorem keys_parse_print_tab : ∃ d d', parse .epoch "flowchart TD\nA[\"a\tb\"]" = .ok d ∧
    d.dialect = .flowchart ∧ parse .epoch (DiagramText.print d) = .ok d' ∧
      d.elements.keys = ["A"] ∧ d'.elements.keys = [] := by
  have taken : Source.ofText? "flowchart TD\nA[\"a\tb\"]" =
      some ⟨"flowchart TD", ["A[\"a\tb\"]"], none⟩ := by decide +kernel
  have declared : (Registry.full).dialectOf "flowchart TD" = .ok .flowchart := rfl
  obtain ⟨d, parsed, flowchart, graph⟩ := Registry.exists_parse .epoch taken declared
  have keys : (read .epoch ["A[\"a\tb\"]"]).elements.keys = ["A"] := by decide +kernel
  have lines : sourceLines (read .epoch ["A[\"a\tb\"]"]) = ["    A[a\tb]"] := by
    have ordered : Orders (sampleForest (read .epoch ["A[\"a\tb\"]"]).elements.values)
        (read .epoch ["A[\"a\tb\"]"]).elements := by decide +kernel
    rw [sourceLines, ordered.outline]
    decide +kernel
  have lost : (read .epoch (["    A[a\tb]"].map Text.trimmed)).elements.keys = [] := by decide +kernel
  replace graph : d.toGraph = read .epoch ["A[\"a\tb\"]"] := graph
  have statements : ∀ line ∈ sourceLines d.toGraph, Source.IsStatement line.toList := by
    rw [graph, lines, List.forall_mem_singleton]
    exact ⟨by decide, by decide, by decide⟩
  have reparsed := parse_source .epoch (isHeader_headerText (printedDirection d))
    (dialectOf_headerText (printedDirection d)) d.metadata statements
  rw [← print_eq_source flowchart, graph, lines] at reparsed
  exact ⟨d, _, parsed, flowchart, reparsed, (congrArg (·.elements.keys) graph).trans keys, lost⟩

end DiagramText.Flowchart
