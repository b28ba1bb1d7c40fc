import Mathlib.Data.List.Basic
import DiagramText.Proofs.Registry
import DiagramText.Proofs.Sequence.Line
import DiagramText.Proofs.Sequence.Telling

/-! Formatting of sequence diagrams. What is printed depends on the story alone, every line of it
says its statement, and those statements tell the story again: the same participants, then the same
messages and notes one after the other. -/
namespace DiagramText.Sequence

/-! ### The printed lines -/

def Story.lines (t : Story) : List String := t.cast.map Member.text ++ t.steps.filterMap Step.text?

theorem messageText_eq (c : Connection) : some (messageText c) = (messageOf c).2.text? := by
  simp only [messageText, messageOf, Step.text?, Connection.hasLabel, Bool.not_eq_true']
  cases Text.isBlankText c.label <;> rfl

theorem noteText?_eq (e : Element) : noteText? e = (noteOf e).2.text? := by
  rw [noteText?]
  rfl

/-- What is printed depends on the story alone. -/
theorem print_eq_lines (layout : Layout) (g : Graph) (m : Metadata) :
    print layout g m =
      layout.source "sequenceDiagram" m ((story g).lines.map (layout.indented 1)) := by
  have messages : (g.connections.values.map messageOf).map (fun p => (p.1, p.2.text?)) =
      g.connections.values.map fun c => (orderOf c.properties, some (messageText c)) := by
    rw [List.map_map]
    apply List.map_congr_left
    intro c _
    rw [messageText_eq]
    rfl
  have noteLines : ((notes g).map noteOf).map (fun p => (p.1, p.2.text?)) =
      (notes g).map fun e => (orderOf e.properties, noteText? e) := by
    rw [List.map_map]
    apply List.map_congr_left
    intro e _
    rw [noteText?_eq]
    rfl
  have texts : steps g = (counted g).map fun p => (p.1, p.2.text?) := by
    rw [counted, List.map_append, messages, noteLines]
    rfl
  have ordered : (steps g).mergeSort (fun a b => a.1 ≤ b.1) =
      (numbered g).map fun p => (p.1, p.2.text?) := by
    rw [texts, numbered, List.map_mergeSort]
    intro a _ b _
    rfl
  have stepLines : ((steps g).mergeSort fun a b => a.1 ≤ b.1).filterMap (·.2) =
      (story g).steps.filterMap Step.text? := by
    rw [ordered, story, List.filterMap_map, List.filterMap_map]
    rfl
  have castLines : (present g).map declarationText = (story g).cast.map Member.text := by
    rw [story, List.map_map]
    rfl
  rw [print]
  simp only [stepLines, Story.lines, List.map_append, ← castLines, List.map_map]
  rfl

/-! ### What the lines say -/

theorem Told.says {cast : List Member} {steps : List Step} (told : Told cast steps) :
    ∀ s ∈ steps, ∃ line, s.text? = some line ∧ Says line s.statement := by
  induction told with
  | nil => simp
  | @snoc steps s before fits ih =>
    rw [List.forall_mem_append, List.forall_mem_singleton]
    exact ⟨ih, says_step fits⟩

theorem isStatement_lines {t : Story} (sound : t.IsSound) :
    ∀ line ∈ t.lines, Source.IsStatement line.toList := by
  rw [Story.lines, List.forall_mem_append, List.forall_mem_map]
  refine ⟨fun m there => (says_member (sound.cast m there)).isStatement, fun line there => ?_⟩
  obtain ⟨s, inside, printed⟩ := List.mem_filterMap.1 there
  obtain ⟨same, text, said⟩ := sound.told.says s inside
  rw [printed] at text
  exact (Option.some.inj text) ▸ said.isStatement

/-- The printed lines say the statements of the story in their order. -/
theorem statements_lines {t : Story} (sound : t.IsSound) (layout : Layout) :
    statementsOf ((t.lines.map (layout.indented 1)).map Text.trimmed) = t.statements := by
  rw [statementsOf, Story.lines, List.map_append, List.map_append, List.filterMap_append, Story.statements]
  congr 1
  · rw [List.map_map, List.map_map, List.filterMap_map, List.filterMap_eq_map_iff_forall_eq_some]
    intro m there
    simp only [Function.comp_apply]
    exact (says_member (sound.cast m there)).ofText?_trimmed layout 1
  · rw [List.map_filterMap, List.map_filterMap, List.filterMap_filterMap,
      List.filterMap_eq_map_iff_forall_eq_some]
    intro s there
    obtain ⟨line, text, said⟩ := sound.told.says s there
    rw [text, Option.map_some, Option.map_some, Option.bind_some]
    exact said.ofText?_trimmed layout 1

/-! ### Formatting -/

theorem isSound_statementsOf (lines : List String) : ∀ s ∈ statementsOf lines, s.IsSound := by
  intro s there
  obtain ⟨line, -, read⟩ := List.mem_filterMap.1 there
  exact isSound_of_ofText? read

/-- Read again, the lines of a sound story tell it on one line each. -/
theorem story_read_lines (later : Instant) {t : Story} (sound : t.IsSound)
    (few : t.steps.length ≤ Json.maxWord) (layout : Layout) :
    story (read later ((t.lines.map (layout.indented 1)).map Text.trimmed)) = t.flat := by
  have statements := statements_lines sound layout
  rw [story_read, statements, Story.foldl_tell_statements sound]
  rwa [statements, Story.countP_statements]

theorem text_flat {m : Member} (sound : m.IsSound) : m.flat.text = m.text := by
  have filled := sound.filled
  have same : Text.oneLine m.label = m.id ↔ m.label = m.id := by
    constructor
    · intro named
      have none : ' ' ∉ Text.singleLine m.label.toList := by
        rw [← Text.toList_oneLine, named]
        exact fun h => absurd (sound.word.chars _ h) (by decide)
      rw [← named, Text.oneLine, Text.singleLine_eq_self_of_not_mem none, String.ofList_toList]
    · intro named
      rw [named, sound.word.oneLine]
  simp only [Member.text, Member.flat, filled, sound.some, same, Text.oneLine_oneLine]

theorem text?_flat (s : Step) : s.flat.text? = s.text? := by
  cases s with
  | message => simp [Step.flat, Step.text?]
  | note id placement participants text => cases participants <;> simp [Step.flat, Step.text?]

/-- On one line already, a story is printed as it was. -/
theorem lines_flat {t : Story} (sound : t.IsSound) : t.flat.lines = t.lines := by
  rw [Story.lines, Story.flat, List.map_map, List.filterMap_map, Story.lines]
  congr 1
  · exact List.map_congr_left fun m there => text_flat (sound.cast m there)
  · exact List.filterMap_congr fun s _ => text?_flat s

theorem isHeader : Source.IsHeader "sequenceDiagram" :=
  ⟨⟨by decide, by decide, by decide⟩, by decide, by decide⟩

theorem dialectOf_header : (Registry.full).dialectOf "sequenceDiagram" = .ok .sequence := rfl

/-- A diagram that is printed as the lines of a sound story is printed to source that is read. It is
printed again as before if what is read has the same lines. -/
theorem exists_parse_print (later : Instant) {d : Diagram} (sequence : d.dialect = .sequence) {t : Story}
    (sound : t.IsSound) (same : (story d.toGraph).lines = t.lines) :
    ∃ d', parse later (DiagramText.print d) = .ok d' ∧ d'.dialect = .sequence ∧
      d'.toGraph = read later ((t.lines.map (Layout.usual.indented 1)).map Text.trimmed) ∧
      ((story d'.toGraph).lines = t.lines → DiagramText.print d' = DiagramText.print d) := by
  let lines := t.lines.map (Layout.usual.indented 1)
  let source : Source :=
    ⟨"sequenceDiagram", lines.map Text.trimmed, Layout.usual.shownTitle? d.metadata⟩
  have printed : DiagramText.print d = Layout.usual.source "sequenceDiagram" d.metadata lines := by
    rw [DiagramText.print, sequence]
    exact (print_eq_lines ..).trans (by rw [same])
  have taken : Source.ofText? (DiagramText.print d) = some source := by
    rw [printed]
    apply Source.ofText?_source _ _ isHeader
    rw [List.forall_mem_map]
    exact fun line there => (isStatement_lines sound line there).indented _ 1
  let d' : Diagram :=
    .ofGraph .sequence (read later source.body) (Registry.metadataOf later source .sequence)
  have parsed : parse later (DiagramText.print d) = .ok d' :=
    Registry.parse_eq_ok_iff.2 ⟨source, .sequence, taken, dialectOf_header, by decide, rfl⟩
  have title : Layout.usual.titleLines d'.metadata = Layout.usual.titleLines d.metadata :=
    Layout.usual.titleLines_shownTitle? rfl
  have reprinted : DiagramText.print d' =
      Layout.usual.source "sequenceDiagram" d'.metadata
        ((story d'.toGraph).lines.map (Layout.usual.indented 1)) := print_eq_lines ..
  refine ⟨d', parsed, rfl, rfl, fun again => ?_⟩
  rw [reprinted, again, printed, Layout.source, Layout.source, title]

/-- A diagram with a sound story is printed to source that tells the story again. -/
theorem parse_print_of_isSound (later : Instant) {d : Diagram} (sequence : d.dialect = .sequence)
    (sound : (story d.toGraph).IsSound) (few : (story d.toGraph).steps.length ≤ Json.maxWord) :
    ∃ d', parse later (DiagramText.print d) = .ok d' ∧ d'.dialect = .sequence ∧
      story d'.toGraph = (story d.toGraph).flat ∧ DiagramText.print d' = DiagramText.print d := by
  obtain ⟨d', parsed, dialect, graph, reprinted⟩ := exists_parse_print later sequence sound rfl
  have retold : story d'.toGraph = (story d.toGraph).flat := by
    rw [graph]
    exact story_read_lines later sound few .usual
  exact ⟨d', parsed, dialect, retold, reprinted (by rw [retold, lines_flat sound])⟩

/-- What is read of a text has a sound story, of so few steps that their numbers fit a word. -/
theorem isSound_story_of_parse {now : Instant} {text : String} {d : Diagram}
    (parsed : parse now text = .ok d) (sequence : d.dialect = .sequence)
    (short : text.length < Json.maxWord) :
    (story d.toGraph).IsSound ∧ (story d.toGraph).steps.length ≤ Json.maxWord := by
  obtain ⟨source, t, taken, -, -, rfl⟩ := Registry.parse_eq_ok_iff.1 parsed
  obtain rfl : t = .sequence := sequence
  have few : (statementsOf source.body).countP Statement.isStep ≤ Json.maxWord := by
    have lines := Source.length_body_le taken
    have steps := @List.countP_le_length _ Statement.isStep (statementsOf source.body)
    have said := List.length_filterMap_le (fun line => Statement.ofText? line.toList) source.body
    rw [← statementsOf] at said
    omega
  have told : story (read now source.body) = (statementsOf source.body).foldl Story.tell .empty :=
    story_read now few
  have steps := Story.length_steps_foldl_tell_le .empty (statementsOf source.body)
  rw [← told, Story.empty, List.length_nil, Nat.zero_add] at steps
  refine ⟨?_, Nat.le_trans steps few⟩
  have sound := Story.isSound_foldl_tell Story.isSound_empty (isSound_statementsOf source.body)
  rw [← told] at sound
  exact sound

/-- A sequence diagram that is read, printed and read again tells the same story, each text on one
line, and is printed as before. No text in memory is as long as the largest word. -/
theorem parse_print_of_parse {now : Instant} (later : Instant) {text : String} {d : Diagram}
    (parsed : parse now text = .ok d) (sequence : d.dialect = .sequence)
    (short : text.length < Json.maxWord) :
    ∃ d', parse later (DiagramText.print d) = .ok d' ∧ d'.dialect = .sequence ∧
      story d'.toGraph = (story d.toGraph).flat ∧ DiagramText.print d' = DiagramText.print d := by
  obtain ⟨sound, few⟩ := isSound_story_of_parse parsed sequence short
  exact parse_print_of_isSound later sequence sound few

/-- A message that ends at a note, an arrow next to an `x`, and a label with a line break in it. -/
def sampleText : String :=
  "sequenceDiagram\n  A-xx: stop\n  Note over A,x: look\n  actor x as X\rY\n  x->note_1"

theorem parse_print_of_parse_sample : ∃ d, parse .epoch sampleText = .ok d ∧
    d.dialect = .sequence ∧ sampleText.length < Json.maxWord ∧
    ∃ d', parse .epoch (DiagramText.print d) = .ok d' ∧ d'.dialect = .sequence ∧
      story d'.toGraph = (story d.toGraph).flat ∧ DiagramText.print d' = DiagramText.print d := by
  have taken : Source.ofText? sampleText = some ⟨"sequenceDiagram",
      ["A-xx: stop", "Note over A,x: look", "actor x as X\rY", "x->note_1"], none⟩ := by decide
  have short : sampleText.length < Json.maxWord := by decide
  obtain ⟨d, parsed, sequence⟩ : ∃ d, parse .epoch sampleText = .ok d ∧ d.dialect = .sequence :=
    ⟨_, Registry.parse_eq_ok_iff.2 ⟨_, .sequence, taken, dialectOf_header, by decide, rfl⟩, rfl⟩
  exact ⟨d, parsed, sequence, short, parse_print_of_parse .epoch parsed sequence short⟩

end DiagramText.Sequence
