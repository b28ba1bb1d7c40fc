import DiagramText.Proofs.Entities.Reformatting
import DiagramText.Proofs.Flowchart.Formatting
import DiagramText.Proofs.Flowchart.Legibility

/-! Labels of source that is formatted. State descriptions, relationships and the titles of subgraphs
may stand in source as they are, and are written in quotes, in which an entity is read as a quote. So
a label comes back if it has no entity of its own, and another one comes back if it has. -/
namespace DiagramText

variable {now : Instant} {text : String} {d : Diagram}

/-! ### The label that comes back -/

/-- Every state but the terminal one has the label that quotes carry of its own. -/
theorem States.parse_print_labels (later : Instant) (parsed : parse now text = .ok d) (states : d.dialect = .states) :
    ∃ d', parse later (DiagramText.print d) = .ok d' ∧ d'.dialect = .states ∧
      ∀ e ∈ d.elements.values, e.label ≠ "" → ∃ e', d'.elements.get? e.id = some e' ∧ e'.label = Text.requoted e.label := by
  obtain ⟨draft, f, d', graph, sound, forested, reparsed, dialect, redrawn, -⟩ :=
    parse_print_redrawn later parsed states
  refine ⟨d', reparsed, dialect, fun e there some => ?_⟩
  have settled := forested.settled
  -- The terminal state has no label.
  have other : e.id ≠ terminal := fun own => some ((settled.states e there).plain own).2.1
  have among := settled.mem_values_named there other
  obtain ⟨e', found, redraws⟩ := redraws_named redrawn forested among
  exact ⟨e', found, redraws.label.trans (getD_shownLabel? (settled.word among) some)⟩

/-- What is printed of a flowchart that was read is read line by line. -/
theorem Flowchart.Draft.Sound.legible {draft : Flowchart.Draft} (sound : draft.Sound) (closed : draft.graph.Closed)
    (labels : ∀ e ∈ draft.graph.elements.values, Keeps e.label)
    (whole : ∀ e ∈ styled draft.graph.elements.values,
      Text.unquotedPieces ';' false (styleText e).toList = [(styleText e).toList]) : IsLegible draft.graph where
  nested := sound.planted.nested
  words e there := (sound.elements e there).word
  labels := labels
  closed := closed
  uncut e there :=
    have own := sound.elements e (mem_of_mem_styled there).1
    ⟨(isLine_styleText own.word own.style.written (mem_of_mem_styled there).2).unbroken, whole e there⟩

/-- Every node and every subgraph has the label that quotes carry of its own. -/
theorem Flowchart.parse_print_labels (later : Instant) (parsed : parse now text = .ok d)
    (flowchart : d.dialect = .flowchart) (labels : ∀ e ∈ d.elements.values, Keeps e.label)
    (whole : ∀ e ∈ styled d.elements.values,
      Text.unquotedPieces ';' false (styleText e).toList = [(styleText e).toList]) :
    ∃ d', parse later (DiagramText.print d) = .ok d' ∧ d'.dialect = .flowchart ∧ ∀ e ∈ d.elements.values,
      ∃ e', d'.elements.get? e.id = some e' ∧ e'.label = Text.requoted e.label := by
  obtain ⟨draft, sound, graph, closed⟩ := exists_sound_of_parse parsed flowchart
  have legible : IsLegible d.toGraph := by
    rw [← graph] at closed ⊢
    exact sound.legible closed (graph ▸ labels) (graph ▸ whole)
  obtain ⟨d', reparsed, same, reread⟩ := parse_print_of_legible later flowchart legible
  refine ⟨d', reparsed, same, fun e there => ?_⟩
  obtain ⟨e', found, label⟩ := reread.labels e there
  exact ⟨e', found, label.trans (carried_eq_requoted e.label)⟩

/-! ### The same label -/

/-- Formatting keeps the label of a state, of a relationship and of an element of a flowchart, if and only
if quotes can carry it: on one line and without an entity of its own. -/
theorem parse_print_label_iff (later : Instant) (parsed : parse now text = .ok d) :
    (d.dialect = .states → ∃ d', parse later (print d) = .ok d' ∧ d'.dialect = .states ∧
      ∀ e ∈ d.elements.values, e.label ≠ "" →
        ∃ e', d'.elements.get? e.id = some e' ∧ (e'.label = e.label ↔ Text.IsQuotable e.label)) ∧
    (d.dialect = .entities → ∃ d', parse later (print d) = .ok d' ∧ d'.dialect = .entities ∧
      List.Forall₂ (fun c c' => c'.source = c.source ∧ c'.target = c.target ∧
        (c'.label = c.label ↔ Text.IsQuotable c.label)) d.connections.values d'.connections.values) ∧
    (d.dialect = .flowchart → (∀ e ∈ d.elements.values, Flowchart.Keeps e.label) →
      (∀ e ∈ Flowchart.styled d.elements.values, Text.unquotedPieces ';' false (Flowchart.styleText e).toList =
        [(Flowchart.styleText e).toList]) →
      ∃ d', parse later (print d) = .ok d' ∧ d'.dialect = .flowchart ∧ ∀ e ∈ d.elements.values,
        ∃ e', d'.elements.get? e.id = some e' ∧ (e'.label = e.label ↔ Text.IsQuotable e.label)) := by
  refine ⟨fun states => ?_, fun entities => ?_, fun flowchart labels whole => ?_⟩
  · obtain ⟨d', reparsed, same, back⟩ := States.parse_print_labels later parsed states
    refine ⟨d', reparsed, same, fun e there some => ?_⟩
    obtain ⟨e', found, label⟩ := back e there some
    exact ⟨e', found, label ▸ Text.requoted_eq_self_iff⟩
  · obtain ⟨d', reparsed, same, ties⟩ := Entities.parse_print_ties later parsed entities
    refine ⟨d', reparsed, same, ?_⟩
    rw [← List.forall₂_eq_eq_eq, List.forall₂_map_left_iff, List.forall₂_map_right_iff] at ties
    refine ties.flip.imp fun c c' same => ?_
    obtain ⟨source, target, label⟩ : c'.source = c.source ∧ c'.target = c.target ∧ c'.label = Text.requoted c.label := by
      simpa [Entities.tie, Entities.reread] using same
    exact ⟨source, target, label ▸ Text.requoted_eq_self_iff⟩
  · obtain ⟨d', reparsed, same, back⟩ := Flowchart.parse_print_labels later parsed flowchart labels whole
    refine ⟨d', reparsed, same, fun e there => ?_⟩
    obtain ⟨e', found, label⟩ := back e there
    exact ⟨e', found, label ▸ Text.requoted_eq_self_iff⟩

/-! ### Quotes within a text, and an entity in place of one -/

theorem parse_print_label_iff_sample :
    (∃ d d', parse .epoch "stateDiagram-v2\nA : he said \"no; go\"" = .ok d ∧ parse .epoch (print d) = .ok d' ∧
      ∃ e ∈ d.elements.values, e.label = "he said \"no; go\"" ∧
        ∃ e', d'.elements.get? e.id = some e' ∧ e'.label = e.label) ∧
    (∃ d d', parse .epoch "erDiagram\nA ||--|| B : has \"all\"" = .ok d ∧ parse .epoch (print d) = .ok d' ∧
      ∃ c c', d.connections.values = [c] ∧ c.label = "has \"all\"" ∧
        d'.connections.values = [c'] ∧ c'.label = c.label) ∧
    (∃ d d', parse .epoch "flowchart TD\nsubgraph My \"own\" team" = .ok d ∧ parse .epoch (print d) = .ok d' ∧
      ∃ e ∈ d.elements.values, e.label = "My \"own\" team" ∧
        ∃ e', d'.elements.get? e.id = some e' ∧ e'.label = e.label) := by
  refine ⟨?_, ?_, ?_⟩
  · have taken : Source.ofText? "stateDiagram-v2\nA : he said \"no; go\"" =
        some ⟨"stateDiagram-v2", ["A : he said \"no; go\""], none⟩ := by decide +kernel
    obtain ⟨d, parsed, states, graph⟩ := Registry.exists_parse .epoch taken States.dialectOf_header
    obtain ⟨e, there, label⟩ : ∃ e ∈ d.elements.values, e.label = "he said \"no; go\"" := by
      rw [graph]
      decide +kernel
    obtain ⟨d', reparsed, -, back⟩ := (parse_print_label_iff .epoch parsed).1 states
    obtain ⟨e', found, same⟩ := back e there (by rw [label]; decide +kernel)
    exact ⟨d, d', parsed, reparsed, e, there, label, e', found, same.2 (by rw [label]; decide +kernel)⟩
  · have taken : Source.ofText? "erDiagram\nA ||--|| B : has \"all\"" =
        some ⟨"erDiagram", ["A ||--|| B : has \"all\""], none⟩ := by decide +kernel
    obtain ⟨d, parsed, entities, graph⟩ := Registry.exists_parse .epoch taken Entities.dialectOf_header
    have labels : d.connections.values.map (·.label) = ["has \"all\""] := by
      rw [graph]
      decide +kernel
    obtain ⟨c, one, label⟩ := List.map_eq_singleton_iff.1 labels
    obtain ⟨d', reparsed, -, back⟩ := (parse_print_label_iff .epoch parsed).2.1 entities
    rw [one, List.forall₂_cons_left_iff] at back
    obtain ⟨c', cs, ⟨-, -, same⟩, none, two⟩ := back
    rw [List.forall₂_nil_left_iff.1 none] at two
    exact ⟨d, d', parsed, reparsed, c, c', one, label, two, same.2 (by rw [label]; decide +kernel)⟩
  · have taken : Source.ofText? "flowchart TD\nsubgraph My \"own\" team" =
        some ⟨"flowchart TD", ["subgraph My \"own\" team"], none⟩ := by decide +kernel
    have declared : (Registry.full).dialectOf "flowchart TD" = .ok .flowchart := rfl
    obtain ⟨d, parsed, flowchart, graph⟩ := Registry.exists_parse .epoch taken declared
    obtain ⟨e, there, label⟩ : ∃ e ∈ d.elements.values, e.label = "My \"own\" team" := by
      rw [graph]
      decide +kernel
    have keeps : ∀ e ∈ d.elements.values, Flowchart.Keeps e.label := by
      rw [graph]
      decide +kernel
    have unstyled : Flowchart.styled d.elements.values = [] := by
      rw [graph]
      decide +kernel
    obtain ⟨d', reparsed, -, back⟩ := (parse_print_label_iff .epoch parsed).2.2 flowchart keeps
      (by rw [unstyled]; exact List.forall_mem_nil _)
    obtain ⟨e', found, same⟩ := back e there
    exact ⟨d, d', parsed, reparsed, e, there, label, e', found, same.2 (by rw [label]; decide +kernel)⟩

/-- An entity in a description comes back as the quote that it stands for. -/
theorem label_parse_print_entity : ∃ d d', parse .epoch "stateDiagram-v2\nA : x#quot;y" = .ok d ∧
    parse .epoch (print d) = .ok d' ∧ ∃ e ∈ d.elements.values, e.label = "x#quot;y" ∧
      ∃ e', d'.elements.get? e.id = some e' ∧ e'.label = "x\"y" := by
  have taken : Source.ofText? "stateDiagram-v2\nA : x#quot;y" =
      some ⟨"stateDiagram-v2", ["A : x#quot;y"], none⟩ := by decide +kernel
  obtain ⟨d, parsed, states, graph⟩ := Registry.exists_parse .epoch taken States.dialectOf_header
  obtain ⟨e, there, label⟩ : ∃ e ∈ d.elements.values, e.label = "x#quot;y" := by
    rw [graph]
    decide +kernel
  obtain ⟨d', reparsed, -, back⟩ := States.parse_print_labels .epoch parsed states
  obtain ⟨e', found, same⟩ := back e there (by rw [label]; decide +kernel)
  exact ⟨d, d', parsed, reparsed, e, there, label, e', found, by rw [same, label]; decide +kernel⟩

end DiagramText
