import DiagramText.Proofs.Classes.Validity
import DiagramText.Proofs.Entities.Validity
import DiagramText.Proofs.Flowchart.Validity
import DiagramText.Proofs.Registry
import DiagramText.Proofs.Sequence.Validity
import DiagramText.Proofs.States.Validity

/-! Printed source is valid source, in any dialect. What can go wrong is text that a dialect prints bare
where brackets count, and a line that opens a block and does not look like it; everything else that a
diagram carries stands in quotes, behind a colon, or is made of words. -/
namespace DiagramText

namespace Dialect

/-- The text that a dialect prints bare is balanced, line by line, and what opens a block is seen to. -/
def IsEven : Dialect → Graph → Prop
  | .flowchart => Flowchart.IsEven
  | .sequence => Sequence.IsEven
  | .classes => Classes.IsEven
  | .states => States.IsEven
  | .entities => Entities.IsEven

theorem findings_print {t : Dialect} {now : Instant} {lines : List String}
    (unbroken : ∀ line ∈ lines, '\n' ∉ line.toList) (even : t.IsEven (t.read now lines))
    (rules : Validation.Rules) (layout : Layout) (m : Metadata) :
    (Validation.scan rules (t.print layout (t.read now lines) m)).findings = [] := by
  have keyed := t.keyed_read now lines
  have closed := t.closed_read now lines
  cases t with
  | flowchart =>
    have sound : (lines.foldl (Flowchart.Draft.readLine now) .empty).Sound :=
      Flowchart.Draft.sound_foldl_readLine Flowchart.Draft.sound_empty unbroken
    exact Flowchart.findings_print_of_sound sound closed even rules layout m
  | sequence => exact Sequence.findings_print (Sequence.sound_read now lines) keyed closed even rules layout m
  | classes => exact Classes.findings_print (Classes.isRead_read now lines) keyed closed even rules layout m
  | states =>
    have sound : (lines.foldl (States.Draft.readLine now) .empty).Sound :=
      States.Draft.sound_foldl_readLine States.Draft.sound_empty lines
    exact States.findings_print sound even rules layout m
  | entities => exact Entities.findings_print (Entities.isRead_read now unbroken) keyed closed even rules layout m

end Dialect

/-- A diagram that is read is printed as valid source, unless text that its dialect prints bare is out of
balance. -/
theorem isValid_print_of_even (rules : Validation.Rules) (layout : Layout) {now : Instant} {text : String}
    {d : Diagram} (parsed : parse now text = .ok d) (even : d.dialect.IsEven d.toGraph) :
    ∃ source, (Registry.full layout).print d = .ok source ∧ (Validation.validate rules source).isValid := by
  obtain ⟨source, t, taken, -, -, made⟩ := Registry.parse_eq_ok_iff.1 parsed
  have dialect : d.dialect = t := by rw [made]; rfl
  have graph : d.toGraph = t.read now source.body := by rw [made]; rfl
  rw [dialect, graph] at even
  have findings := Dialect.findings_print (Source.unbroken_body taken) even rules layout d.metadata
  have known : (Registry.full layout).printer? t = some layout := by cases t <;> rfl
  refine ⟨t.print layout d.toGraph d.metadata, ?_, ?_⟩
  · rw [Registry.print, dialect, known]
  · show (Validation.scan rules _).findings.isEmpty
    rw [graph, findings, List.isEmpty_nil]

/-- A class whose quoted texts are out of balance, and whose bare ones are not. -/
def evenText : String :=
  "classDiagram\nclass A[\"a (\"] \x7b\n+run(xs: List[int]) int\n<<service>>\n\x7d\nA \"1 (\" --> B : (uses)"

def evenLines : List String :=
  ["class A[\"a (\"] \x7b", "+run(xs: List[int]) int", "<<service>>", "\x7d", "A \"1 (\" --> B : (uses)"]

theorem isValid_print_of_even_sample : ∃ d, parse .epoch evenText = .ok d ∧ d.dialect.IsEven d.toGraph ∧
    ∃ source, (Registry.full).print d = .ok source ∧ (Validation.validate .usual source).isValid := by
  have taken : Source.ofText? evenText = some ⟨"classDiagram", evenLines, none⟩ := by decide +kernel
  have declared : (Registry.full).dialectOf "classDiagram" = .ok .classes := rfl
  obtain ⟨d, parsed, classes, graph⟩ := Registry.exists_parse .epoch taken declared
  have even : d.dialect.IsEven d.toGraph := by
    rw [classes, graph]
    exact ⟨by decide +kernel, by decide +kernel⟩
  exact ⟨d, parsed, even, isValid_print_of_even .usual .usual parsed even⟩

/-- The label of a relation is printed bare, and its bracket counts. -/
theorem not_isValid_print_label : ∃ d, parse .epoch "classDiagram\nA --> B : (" = .ok d ∧
    (Validation.validate .usual (print d)).isValid = false := by
  have taken : Source.ofText? "classDiagram\nA --> B : (" =
      some ⟨"classDiagram", ["A --> B : ("], none⟩ := by decide +kernel
  have declared : (Registry.full).dialectOf "classDiagram" = .ok .classes := rfl
  exact ⟨_, Registry.parse_eq_ok_iff.2 ⟨_, .classes, taken, declared, by decide, rfl⟩, by decide +kernel⟩

end DiagramText
