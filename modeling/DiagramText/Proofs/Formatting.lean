import Mathlib.Data.List.Forall2
import DiagramText.Proofs.Registry
import DiagramText.Proofs.Source

/-! Printed source read again, in any dialect. If every printed line is a statement, reading gives
the graph of those lines; and if that graph is printed to the same lines, nothing has changed. -/
namespace DiagramText

/-- What depends on a view alone is the same wherever the view is. -/
theorem map_eq_of_view {α β γ : Type} {view : α → β} {f : α → γ}
    (depends : ∀ a b, view a = view b → f a = f b) {as bs : List α} (same : as.map view = bs.map view) :
    as.map f = bs.map f := by
  rw [← List.forall₂_eq_eq_eq, List.forall₂_map_left_iff, List.forall₂_map_right_iff] at same ⊢
  exact same.imp depends

/-- Blanks around a line are gone when it is taken apart. -/
theorem Layout.trim_trimmed_indented (l : Layout) (depth : Nat) (line : String) :
    Text.trim (Text.trimmed (l.indented depth line)).toList = Text.trim line.toList := by
  rw [Text.toList_trimmed, Text.trim_trim, Source.trim_indented]

/-- A reader that trims its lines does not see how they are indented. -/
theorem Layout.foldl_trimmed_indented {δ : Type} {l : Layout} {step : δ → String → δ}
    (blind : ∀ d depth line, step d (Text.trimmed (l.indented depth line)) = step d line)
    (d : δ) (depth : Nat) (lines : List String) :
    ((lines.map (l.indented depth)).map Text.trimmed).foldl step d = lines.foldl step d := by
  rw [List.map_map, List.foldl_map]
  simp only [Function.comp_apply, blind]

variable {t : Dialect} {header : String} {lines : List String}

/-- Source under a header that declares a dialect is read as the graph of its lines. -/
theorem parse_source (now : Instant) (isHeader : Source.IsHeader header)
    (declared : (Registry.full).dialectOf header = .ok t) (m : Metadata)
    (statements : ∀ line ∈ lines, Source.IsStatement line.toList) :
    parse now (Layout.usual.source header m lines) = .ok (.ofGraph t (t.read now (lines.map Text.trimmed))
      (Registry.metadataOf now ⟨header, lines.map Text.trimmed, Layout.usual.shownTitle? m⟩ t)) := by
  have known : t ∈ (Registry.full).readers := by cases t <;> decide
  exact Registry.parse_eq_ok_iff.2
    ⟨_, t, Source.ofText?_source .usual m isHeader statements, declared, known, rfl⟩

/-- A diagram that is read is the graph of lines without breaks. -/
theorem exists_lines_of_parse {now : Instant} {text : String} {d : Diagram} (parsed : parse now text = .ok d)
    (dialect : d.dialect = t) : ∃ lines, d.toGraph = t.read now lines ∧ ∀ line ∈ lines, '\n' ∉ line.toList := by
  obtain ⟨source, read, taken, -, -, made⟩ := Registry.parse_eq_ok_iff.1 parsed
  obtain rfl : read = t := by rw [← dialect, made]; rfl
  exact ⟨source.body, by rw [made]; rfl, Source.unbroken_body taken⟩

/-- A dialect that prints the lines of a graph under one header is read back from them. -/
theorem parse_print_of_lines {texts : Graph → List String} (later : Instant) {d : Diagram}
    (dialect : d.dialect = t) (isHeader : Source.IsHeader header)
    (declared : (Registry.full).dialectOf header = .ok t)
    (printed : ∀ g m, t.print .usual g m = Layout.usual.source header m (texts g))
    (statements : ∀ line ∈ texts d.toGraph, Source.IsStatement line.toList)
    (again : texts (t.read later ((texts d.toGraph).map Text.trimmed)) = texts d.toGraph) :
    ∃ d', parse later (print d) = .ok d' ∧ d'.dialect = t ∧
      d'.toGraph = t.read later ((texts d.toGraph).map Text.trimmed) ∧ print d' = print d := by
  have source : print d = Layout.usual.source header d.metadata (texts d.toGraph) := by
    rw [print, dialect, printed]
  refine ⟨_, source ▸ parse_source later isHeader declared d.metadata statements, rfl, rfl, ?_⟩
  rw [source, print]
  simp only [Diagram.ofGraph, Diagram.recount]
  rw [printed, again, Layout.source, Layout.source]
  congr 3
  exact Layout.usual.titleLines_shownTitle? rfl

end DiagramText
