import DiagramText.Registry

/-! What a registry makes of a text. -/
namespace DiagramText.Registry

variable {r : Registry} {now : Instant} {text : String} {d : Diagram}

/-- A text is read exactly when it has a header, the header declares a dialect, and that dialect
has a reader. -/
theorem parse_eq_ok_iff : r.parse now text = .ok d ↔
    ∃ source t, Source.ofText? text = some source ∧ r.dialectOf source.header = .ok t ∧
      t ∈ r.readers ∧ d = .ofGraph t (t.read now source.body) (metadataOf now source t) := by
  unfold Registry.parse
  cases Source.ofText? text with
  | none => simp [throw, throwThe, MonadExceptOf.throw]
  | some source =>
    cases declared : r.dialectOf source.header with
    | error e => simp [declared, bind, Except.bind]
    | ok t =>
      by_cases known : t ∈ r.readers
      · simp [declared, known, bind, Except.bind, pure, Except.pure, eq_comm]
      · simp [declared, known, bind, Except.bind, throw, throwThe, MonadExceptOf.throw]

/-- A text whose header declares a dialect is read as the graph of its body. -/
theorem exists_parse (now : Instant) {source : Source} {t : Dialect}
    (taken : Source.ofText? text = some source) (declared : (Registry.full).dialectOf source.header = .ok t) :
    ∃ d, DiagramText.parse now text = .ok d ∧ d.dialect = t ∧ d.toGraph = t.read now source.body := by
  have known : t ∈ (Registry.full).readers := by cases t <;> decide
  exact ⟨_, parse_eq_ok_iff.2 ⟨source, t, taken, declared, known, rfl⟩, rfl, rfl⟩

/-- Reading gives the graph that one of the readers makes of some lines. -/
theorem toGraph_of_parse (parsed : r.parse now text = .ok d) :
    ∃ lines, d.toGraph = d.dialect.read now lines := by
  obtain ⟨source, t, _, _, _, rfl⟩ := parse_eq_ok_iff.1 parsed
  exact ⟨source.body, rfl⟩

/-- With every dialect at hand, every diagram is printed. -/
theorem print_full (l : Layout) (d : Diagram) :
    (Registry.full l).print d = .ok (d.dialect.print l d.toGraph d.metadata) := by
  have known : (Registry.full l).printer? d.dialect = some l := by cases d.dialect <;> rfl
  rw [Registry.print, known]

end DiagramText.Registry
