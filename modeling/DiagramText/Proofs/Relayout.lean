import DiagramText.Proofs.Printing
import DiagramText.Proofs.Reading

/-! Layout and title seen from the reader. Ids and labels may hold line breaks, so that a printed
statement may come to several lines, some of them comments. Still a reader trims every line by itself,
and a pad has no break, so that it takes the same lines out of every layout; and the title stands in a
comment of its own. -/
namespace DiagramText

/-- The lines that are read of the statements of a graph. -/
def Dialect.bodyTexts (t : Dialect) (g : Graph) : List String :=
  ((t.statements g).flatMap fun p => Source.fragments p.text).filterMap Source.bodyLine?

theorem Dialect.bodyTexts_eq (t : Dialect) (g : Graph) :
    t.bodyTexts g = (t.statements g).flatMap fun p => Source.bodyLines p.text :=
  List.filterMap_flatMap

theorem Layout.flatMap_fragments_line (l : Layout) (statements : List Placed) :
    (statements.map l.line).flatMap Source.fragments = statements.flatMap fun p => Source.fragments p.text := by
  rw [List.flatMap_map]
  exact List.flatMap_congr fun p _ => Source.fragments_indented l p.depth p.text

/-- What is printed is read as the graph of the same lines in every layout. A title that is shown is
the title that is read. -/
theorem exists_parse_print (now : Instant) (t : Dialect) (l : Layout) (g : Graph) (m : Metadata) :
    ∃ d, parse now (t.print l g m) = .ok d ∧ d.dialect = t ∧ d.toGraph = t.read now (t.bodyTexts g) ∧
      ∀ title, l.shownTitle? m = some title → d.metadata.title = some title := by
  have known : t ∈ (Registry.full).readers := by cases t <;> decide
  have taken := Source.ofText?_source_fragments l m (t.isHeader_header l m) ((t.statements g).map l.line)
  rw [← t.print_eq, l.flatMap_fragments_line] at taken
  refine ⟨_, Registry.parse_eq_ok_iff.2 ⟨_, t, taken, t.dialectOf_header l m, known, rfl⟩, rfl, rfl, ?_⟩
  intro title shown
  simp [Diagram.ofGraph, Diagram.recount, Registry.metadataOf, shown]

/-- The diagram with another title, or with none. -/
def Diagram.titled (d : Diagram) (title : Option String) : Diagram :=
  { d with metadata := { d.metadata with title } }

/-- Neither the layout nor the title changes the diagram. Printed in two layouts and with two titles,
whatever its ids and labels hold, it is read as the same graph but for the time of reading. A title
that is shown comes back on one line. -/
theorem parse_print_relaid (d : Diagram) (l₁ l₂ : Layout) (x₁ x₂ : Option String) (now later : Instant) :
    ∃ s₁ s₂ d₁ d₂, (Registry.full l₁).print (d.titled x₁) = .ok s₁ ∧
      (Registry.full l₂).print (d.titled x₂) = .ok s₂ ∧
      parse now s₁ = .ok d₁ ∧ parse later s₂ = .ok d₂ ∧
      d₁.dialect = d.dialect ∧ d₂.dialect = d.dialect ∧ d₁.toGraph.retimed later = d₂.toGraph ∧
      ∀ x, l₁.emitTitle → x₁ = some x → ¬ Text.isBlankText x →
        d₁.metadata.title = some (Text.trimmed (Text.oneLine x)) := by
  obtain ⟨d₁, parsed₁, dialect₁, graph₁, title₁⟩ :=
    exists_parse_print now d.dialect l₁ d.toGraph (d.titled x₁).metadata
  obtain ⟨d₂, parsed₂, dialect₂, graph₂, -⟩ :=
    exists_parse_print later d.dialect l₂ d.toGraph (d.titled x₂).metadata
  refine ⟨_, _, d₁, d₂, Registry.print_full l₁ _, Registry.print_full l₂ _, parsed₁, parsed₂, dialect₁,
    dialect₂, ?_, ?_⟩
  · rw [graph₁, graph₂, Dialect.retimed_read]
  · rintro x emitted rfl visible
    apply title₁
    simp [Layout.shownTitle?, Diagram.titled, emitted, visible]

end DiagramText
