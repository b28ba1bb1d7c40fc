import DiagramText.Proofs.Flowchart.RoundTrip
import DiagramText.Proofs.Flowchart.Soundness
import DiagramText.Proofs.Validation.Lines

/-! Printed flowcharts are valid source. A label stands in quotes unless it has no character that the
scan looks at, so nothing in it opens or closes a bracket; the brackets of shapes, subgraphs and the
bars of edges match. -/
namespace DiagramText.Flowchart

open Text (IsWord)
open Validation (Silent Balanced IsBalanced Level Cursor Brackets LineContext)
open Validation.Cursor (step)

variable {k : LineContext} {b : Brackets} {n : Nat} {w : Char}

/-! ### Labels -/

/-- What the scan looks at, a label without quotes does not have. -/
theorem silent_labelText (label : String) : Silent true (labelText label).toList := by
  obtain ⟨bare, written, -⟩ | ⟨-, written, -⟩ := labelText_cases label
  · have triggers : ∀ m ∈ Validation.marks true, m ∈ quoteTriggers := Text.forall_mem_of_all rfl
    rw [written]
    exact Validation.silent_of_plain fun c there mark => bare.free c there (triggers c mark)
  · rw [written]
    exact Validation.silent_quoted label

/-! ### Nodes -/

/-- What is open inside a shape on a line. -/
def Shape.inside (s : Shape) (b : Brackets) (n : Nat) : Brackets :=
  { b with openings := (s.closing.toList.filter Validation.isCloser).map (⟨·, n⟩) ++ b.openings }

/-- Behind an id every shape opens, also the one whose bracket is an arrowhead elsewhere. -/
theorem Shape.foldl_opening (s : Shape) (word : Text.isWordChar w) (b : Brackets) (n : Nat) :
    ∃ p, s.opening.toList.foldl (step ⟨true, n, b.openings.length⟩) ⟨b, false, false, some w⟩ =
      ⟨s.inside b n, false, false, p⟩ := by
  cases s with
  | asymmetric =>
    refine ⟨some '>', ?_⟩
    simp [opening, closing, inside, step, Validation.closerOf?, Validation.isCloser, Cursor.atDepth,
      Cursor.behindId, word, Brackets.push]
  | _ => exact ⟨_, rfl⟩

theorem Shape.foldl_closing (s : Shape) (b : Brackets) (n d : Nat) (p : Option Char) :
    ∃ q, s.closing.toList.foldl (step ⟨true, n, d⟩) ⟨s.inside b n, false, false, p⟩ =
      ⟨b, false, false, q⟩ := by
  cases s <;> exact ⟨_, rfl⟩

theorem balanced_nodeText {e : Element} (word : IsWord e.id) : Balanced true (nodeText e).toList := by
  intro b n
  obtain ⟨w, last⟩ : ∃ w, e.id.toList.getLast? = some w := by
    cases found : e.id.toList.getLast? with
    | none => exact absurd (List.getLast?_eq_none_iff.1 found) word.some
    | some w => exact ⟨w, rfl⟩
  have name : e.id.toList.foldl (step ⟨true, n, b.openings.length⟩) (.start b) =
      ⟨b, false, false, some w⟩ := by
    rw [Validation.foldl_plain fun c h => Validation.not_mem_marks_of_isWordChar (word.chars c h), last]
    rfl
  obtain ⟨p, opened⟩ := (shapeOf e).foldl_opening (word.chars w (List.mem_of_getLast? last)) b n
  obtain ⟨q, labelled⟩ := silent_labelText e.label ⟨true, n, b.openings.length⟩
    ⟨(shapeOf e).inside b n, false, false, p⟩ rfl rfl
  obtain ⟨r, closed⟩ := (shapeOf e).foldl_closing b n b.openings.length q
  rw [Validation.scanLine, nodeText, String.toList_append, String.toList_append, String.toList_append,
    List.foldl_append, List.foldl_append, List.foldl_append, name, opened, labelled, closed]

theorem balanced_groupText {e : Element} (word : IsWord e.id) : Balanced true (groupText e).toList := by
  have chars : (groupText e).toList =
      "subgraph ".toList ++ (e.id.toList ++ ([' '] ++ '[' :: ((labelText e.label).toList ++ [']']))) := by
    simp [groupText]
  rw [chars]
  exact ((Validation.silent_of_all rfl).append ((Validation.silent_word word).append
    ((Validation.silent_of_all rfl).append (silent_labelText e.label).square))).balanced

/-! ### Edges -/

/-- The head of an arrow is behind no id, and so it opens no shape. -/
theorem silent_arrowhead (cs : List Char) (plain : cs.all fun d => decide (d ∉ Validation.marks true))
    (noWord : ∃ c, cs.getLast? = some c ∧ Text.isWordChar c = false) : Silent true (cs ++ ['>']) := by
  intro k s flowchart outside
  obtain ⟨c, last, noWord⟩ := noWord
  have shaft : cs.foldl (step k) s = { s with previous := some c } := by
    rw [Validation.foldl_plain (flowchart ▸ Text.forall_mem_of_all plain), last, Option.some_or]
  refine ⟨some '>', ?_⟩
  rw [List.foldl_append, shaft]
  simp [step, outside, Cursor.behindId, noWord, Validation.closerOf?, Validation.isCloser]

theorem silent_token (a : Arrow) : Silent true (' ' :: a.token.toList) := by
  cases a with
  | dottedArrow => exact silent_arrowhead " -.-".toList rfl ⟨'-', rfl, by decide⟩
  | thick => exact silent_arrowhead " ==".toList rfl ⟨'=', rfl, by decide⟩
  | plain => exact silent_arrowhead " --".toList rfl ⟨'-', rfl, by decide⟩
  | _ => exact Validation.silent_of_all rfl

/-- A label between bars, where no bracket of the line is open. -/
theorem balanced_barred {before label after : List Char} (silentBefore : Silent true before)
    (silentLabel : Silent true label) (silentAfter : Silent true after) :
    Balanced true (before ++ '|' :: (label ++ '|' :: after)) := by
  intro b n
  let k : LineContext := ⟨true, n, b.openings.length⟩
  have bar (inside : Bool) (p : Option Char) :
      step k ⟨b, false, inside, p⟩ '|' = ⟨b, false, !inside, some '|'⟩ := by
    simp [step, Cursor.atDepth, k]
  obtain ⟨p, first⟩ := silentBefore k (.start b) rfl rfl
  obtain ⟨q, second⟩ := silentLabel k ⟨b, false, true, some '|'⟩ rfl rfl
  obtain ⟨r, third⟩ := silentAfter k ⟨b, false, false, some '|'⟩ rfl rfl
  show ((before ++ '|' :: (label ++ '|' :: after)).foldl (step k) (.start b)).brackets = b
  rw [List.foldl_append, first, List.foldl_cons, Cursor.start, bar, List.foldl_append, Bool.not_false, second,
    List.foldl_cons, bar, Bool.not_true, third]

theorem balanced_edgeText {c : Connection} (source : IsWord c.source) (target : IsWord c.target) :
    Balanced true (edgeText c).toList := by
  have start : Silent true (c.source.toList ++ ' ' :: (Arrow.ofKey c.kind).token.toList) :=
    (Validation.silent_word source).append (silent_token _)
  have stop : Silent true (' ' :: c.target.toList) :=
    Validation.silent_space.append (Validation.silent_word target)
  unfold edgeText
  dsimp only
  split
  · have barred := balanced_barred start (silent_labelText c.label) stop
    simpa using barred
  · simpa using (start.append stop).balanced

/-! ### The source of a graph -/

theorem unbroken_nodeText {e : Element} (word : IsWord e.id) : '\n' ∉ (nodeText e).toList := by
  have shape := plain_shape (shapeOf e)
  simp only [nodeText, String.toList_append, List.mem_append, not_or]
  exact ⟨⟨⟨word.unbroken, unbroken_of_plain shape.1⟩, not_mem_labelText _⟩, unbroken_of_plain shape.2⟩

theorem unbroken_groupText {e : Element} (word : IsWord e.id) : '\n' ∉ (groupText e).toList := by
  simp only [groupText, String.toList_append, List.mem_append, not_or]
  exact ⟨⟨⟨⟨by decide, word.unbroken⟩, by decide⟩, not_mem_labelText _⟩, by decide⟩

theorem unbroken_edgeText {c : Connection} (source : IsWord c.source) (target : IsWord c.target) :
    '\n' ∉ (edgeText c).toList := by
  have arrow := unbroken_of_plain (plain_token (Arrow.ofKey c.kind))
  unfold edgeText
  dsimp only
  split <;> simp only [String.toList_append, List.mem_append, not_or]
  · exact ⟨⟨⟨⟨⟨⟨source.unbroken, by decide⟩, arrow⟩, by decide⟩, not_mem_labelText _⟩, by decide⟩,
      target.unbroken⟩
  · exact ⟨⟨⟨⟨source.unbroken, by decide⟩, arrow⟩, by decide⟩, target.unbroken⟩

/-- A graph whose ids are words, in the elements as at the ends of the connections. -/
structure IsNamed (g : Graph) : Prop where
  elements : ∀ e ∈ g.elements.values, IsWord e.id
  connections : ∀ c ∈ g.connections.values, IsWord c.source ∧ IsWord c.target

variable {g : Graph}

/-- The outline of any table is that of a forest of its elements, whatever the containers list. -/
theorem level_outline (words : ∀ e ∈ g.elements.values, IsWord e.id) (layout : Layout) :
    Level (some .flowchart) ((Outline.ofElements g.elements fun _ => false).map (itemLine layout)) := by
  have whole {line : String} (balanced : Balanced true line.toList) : IsBalanced (some .flowchart) line :=
    Validation.isBalanced_of_whole (fun _ => rfl) balanced
  refine Validation.level_indented layout (itemLine_eq layout) (Outline.forall_ofElements ?_ ?_ ?_ _)
  · exact fun e there _ => ⟨unbroken_nodeText (words e there), whole (balanced_nodeText (words e there))⟩
  · exact fun e there _ => ⟨unbroken_groupText (words e there), whole (balanced_groupText (words e there))⟩
  · have stop : '\n' ∉ "end".toList ∧ IsBalanced (some .flowchart) "end" := by decide
    exact fun _ => stop

/-- Where ids are words, only what a style line says could be out of balance. -/
theorem findings_print (named : IsNamed g) (styles : ∀ e ∈ styled g.elements.values,
      '\n' ∉ (styleText e).toList ∧ IsBalanced (some .flowchart) (styleText e))
    (rules : Validation.Rules) (layout : Layout) (m : Metadata) :
    (Validation.scan rules (Flowchart.print layout g m)).findings = [] := by
  have edges : Level (some .flowchart) (g.connections.values.map fun c => layout.indented 1 (edgeText c)) := by
    refine Validation.level_indented layout (fun c => ⟨1, rfl⟩) fun c there => ?_
    obtain ⟨source, target⟩ := named.connections c there
    exact ⟨unbroken_edgeText source target,
      Validation.isBalanced_of_whole (fun _ => rfl) (balanced_edgeText source target)⟩
  have level := ((level_outline named.elements layout).append edges).append
    (Validation.level_indented layout (fun e => ⟨1, rfl⟩) styles)
  have header (direction : Direction) : Validation.Declared.ofLine? (headerText direction).toList =
      some .flowchart ∧ IsBalanced (some .flowchart) (headerText direction) := by
    cases direction <;> exact ⟨by decide, by decide⟩
  exact Validation.findings_source rules layout m (isHeader_headerText _) (header _).1 (header _).2 level

/-- What style lines say is balanced. -/
def IsEven (g : Graph) : Prop := ∀ e ∈ styled g.elements.values, IsBalanced (some .flowchart) (styleText e)

/-- In what is read the ids are words, and styles are declared on one line. -/
theorem findings_print_of_sound {d : Draft} (sound : d.Sound) (closed : d.graph.Closed)
    (even : IsEven d.graph) (rules : Validation.Rules) (layout : Layout) (m : Metadata) :
    (Validation.scan rules (Flowchart.print layout d.graph m)).findings = [] := by
  have words : ∀ e ∈ d.graph.elements.values, IsWord e.id := fun e there => (sound.elements e there).word
  refine findings_print ⟨words, fun c there => ?_⟩ (fun e there => ?_) rules layout m
  · exact Graph.ends_of_joins sound.planted.keyed words (closed c there)
  · have read := sound.elements e (mem_of_mem_styled there).1
    exact ⟨(isLine_styleText read.word read.style.written (mem_of_mem_styled there).2).unbroken, even e there⟩

/-- Without styles, a flowchart whose ids are words is printed as valid source: no label, shape, arrow,
title or list of children can unbalance it. -/
theorem errors_print_of_words (rules : Validation.Rules) (layout : Layout) {d : Diagram}
    (flowchart : d.dialect = .flowchart) (elements : ∀ e ∈ d.elements.values, IsWord e.id)
    (connections : ∀ c ∈ d.connections.values, IsWord c.source ∧ IsWord c.target)
    (styles : ∀ e ∈ d.elements.values, e.style.isEmpty) :
    ∃ text, (Registry.full layout).print d = .ok text ∧ (Validation.validate rules text).errors = [] := by
  have plain : ∀ e ∈ styled d.elements.values, '\n' ∉ (styleText e).toList ∧
      IsBalanced (some .flowchart) (styleText e) := by
    intro e there
    obtain ⟨among, some⟩ := mem_of_mem_styled there
    rw [styles e among] at some
    cases some
  have findings := findings_print (g := d.toGraph) ⟨elements, connections⟩ plain rules layout d.metadata
  refine ⟨Flowchart.print layout d.toGraph d.metadata, ?_, ?_⟩
  · rw [Registry.print, flowchart]
    rfl
  · show (Validation.scan rules _).findings.map Validation.Finding.message = []
    rw [findings, List.map_nil]

/-- Two subgraphs with a flag in both, one of which lists itself, and an edge to nowhere; the labels have
brackets, quotes and bars. -/
def tangled : Diagram := .ofGraph .flowchart
  (((((Graph.empty.addElement ((Element.create .epoch "out" .container "a]\"(").setProperty
      Element.childrenKey (.arr [.str "in", .str "flag"]))).addElement
    ((Element.create .epoch "in" .container "\x7b|\t>").setProperty
      Element.childrenKey (.arr [.str "in", .str "flag"]))).addElement
    ((Element.node .epoch "flag" "id>\n[;").setProperty Element.shapeKey (.str "asymmetric"))).connect
    .epoch "flag" "nowhere" "dotted_arrow" "|>\"("))
  { Metadata.create .epoch with title := some "(\n[" }

theorem errors_print_of_words_tangled : tangled.dialect = .flowchart ∧
    (∀ e ∈ tangled.elements.values, IsWord e.id) ∧
    (∀ c ∈ tangled.connections.values, IsWord c.source ∧ IsWord c.target) ∧
    (∀ e ∈ tangled.elements.values, e.style.isEmpty) ∧
    ∃ text, (Registry.full ⟨0, .left, true⟩).print tangled = .ok text ∧
      (Validation.validate .usual text).errors = [] := by
  have dialect : tangled.dialect = .flowchart := rfl
  have elements : ∀ e ∈ tangled.elements.values, IsWord e.id := by decide +kernel
  have connections : ∀ c ∈ tangled.connections.values, IsWord c.source ∧ IsWord c.target := by
    decide +kernel
  have styles : ∀ e ∈ tangled.elements.values, e.style.isEmpty := by decide +kernel
  exact ⟨dialect, elements, connections, styles,
    errors_print_of_words .usual ⟨0, .left, true⟩ dialect elements connections styles⟩

end DiagramText.Flowchart
