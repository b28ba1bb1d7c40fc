import DiagramText.Proofs.Validation.Declaration

/-! The body of a source. A text is taken apart at its first statement line: what that line has behind its
first semicolon comes first in the body, and then the statement lines below it. Only the latter are looked
at for comments, so that a comment behind the header is the one that gets into the body. -/
namespace DiagramText.Source

open Validation (isStatementLine)

variable {line : List Char} {text : String} {source : Source}

/-! ### The lines that give the parts -/

theorem foldl_take_others {above : List (List Char)} (others : ∀ line ∈ above, ¬ isStatementLine line)
    (p : Parts) : above.foldl Parts.take p = { p with title := p.title <|> above.findSome? lineTitle? } := by
  induction above generalizing p with
  | nil => simp
  | cons line above ih =>
    rw [List.forall_mem_cons] at others
    rw [List.foldl_cons, ih others.2, take_other others.1, List.findSome?_cons]
    cases p.title <;> cases lineTitle? line <;> simp

/-- A text is taken apart at its first statement line. -/
theorem exists_of_ofText? (taken : ofText? text = some source) :
    ∃ above line below, lines text = above ++ line :: below ∧ (∀ other ∈ above, ¬ isStatementLine other) ∧
      isStatementLine line ∧ source = ⟨String.ofList (headerOf line),
        headerBody line ++ below.filterMap bodyLine?,
        above.findSome? lineTitle? <|> below.findSome? lineTitle?⟩ := by
  cases found : (lines text).find? isStatementLine with
  | none =>
    have header := header_foldl (p := .empty) rfl (lines text)
    rw [found, Option.map_none] at header
    rw [ofText?, parts, header] at taken
    cases taken
  | some line =>
    obtain ⟨statement, above, below, split, others⟩ := List.find?_eq_some_iff_append.1 found
    have others : ∀ other ∈ above, ¬ isStatementLine other := by simpa using others
    refine ⟨above, line, below, split, others, statement, ?_⟩
    have parted : parts text = ⟨some (String.ofList (headerOf line)), headerBody line ++ below.filterMap bodyLine?,
        above.findSome? lineTitle? <|> below.findSome? lineTitle?⟩ := by
      rw [parts, split, List.foldl_append, foldl_take_others others, List.foldl_cons, take_statementLine statement]
      simp [Parts.empty, takeHeader_eq, foldl_take_of_header]
    rw [ofText?, parted] at taken
    exact (Option.some.inj taken).symm

/-! ### Comments -/

/-- What is left of the header's line, trimmed: it goes to the body as it is. -/
def headerTail (text : String) : List Char := (((lines text).find? isStatementLine).map behindSemicolon).getD []

theorem headerTail_eq {above below : List (List Char)} (split : lines text = above ++ line :: below)
    (others : ∀ other ∈ above, ¬ isStatementLine other) (statement : isStatementLine line) :
    headerTail text = behindSemicolon line := by
  have found : (lines text).find? isStatementLine = some line :=
    List.find?_eq_some_iff_append.2 ⟨statement, above, below, split, by simpa using others⟩
  rw [headerTail, found]
  rfl

/-- A line gives an entry to the body exactly when it is a statement, and then the entry is that line. -/
theorem bodyLine?_eq_some_iff {entry : String} :
    bodyLine? line = some entry ↔ isStatementLine line ∧ entry = String.ofList line := by
  rw [isStatementLine_iff, bodyLine?, ← not_or]
  split <;> simp_all [eq_comm]

theorem behindSemicolon_infix (line : List Char) : behindSemicolon line <:+: line := by
  unfold behindSemicolon
  cases cut : Text.cut? ';' line with
  | none => exact List.nil_infix
  | some p =>
    have behind : p.2 <:+ line := by
      conv => rhs; rw [Text.cut?_eq_some cut]
      exact (List.suffix_cons ..).trans (List.suffix_append ..)
    exact (Text.isInfix_trim p.2).trans behind.isInfix

theorem trim_behindSemicolon (line : List Char) : Text.trim (behindSemicolon line) = behindSemicolon line := by
  unfold behindSemicolon
  cases Text.cut? ';' line with
  | none => rfl
  | some p => exact Text.trim_trim p.2

theorem mem_headerBody_iff {entry : String} :
    entry ∈ headerBody line ↔ behindSemicolon line ≠ [] ∧ entry = String.ofList (behindSemicolon line) := by
  unfold headerBody
  split <;> simp_all

theorem mem_body_iff {below : List (List Char)} {entry : String} :
    entry ∈ headerBody line ++ below.filterMap bodyLine? ↔
      (behindSemicolon line ≠ [] ∧ entry = String.ofList (behindSemicolon line)) ∨
        ∃ other ∈ below, isStatementLine other ∧ entry = String.ofList other := by
  simp only [List.mem_append, mem_headerBody_iff, List.mem_filterMap, bodyLine?_eq_some_iff]

theorem trim_of_mem_lines (there : line ∈ lines text) : Text.trim line = line := by
  obtain ⟨whole, -, rfl⟩ := List.mem_map.1 there
  exact Text.trim_trim whole

/-- Every entry of a body is trimmed and not empty, and stands on a line of the text that is no comment. None
of them is a comment itself if and only if there is none behind the first semicolon of the header. -/
theorem body_uncommented_iff (taken : ofText? text = some source) :
    (∀ entry ∈ source.body, Text.trimmed entry = entry ∧ entry ≠ "" ∧
      ∃ line ∈ lines text, isStatementLine line ∧ entry.toList <:+: line) ∧
    ((∀ entry ∈ source.body, ¬ commentMark <+: entry.toList) ↔ ¬ commentMark <+: headerTail text) := by
  obtain ⟨above, line, below, split, others, statement, rfl⟩ := exists_of_ofText? taken
  rw [headerTail_eq split others statement]
  have tight {cs : List Char} (trims : Text.trim cs = cs) (some : cs ≠ []) :
      Text.trimmed (String.ofList cs) = String.ofList cs ∧ String.ofList cs ≠ "" := by
    refine ⟨by rw [Text.trimmed, String.toList_ofList, trims], fun none => some ?_⟩
    rw [← String.toList_ofList (l := cs), none, String.toList_empty]
  constructor
  · intro entry there
    rcases mem_body_iff.1 there with ⟨some, rfl⟩ | ⟨other, among, isStatement, rfl⟩
    · obtain ⟨trims, filled⟩ := tight (trim_behindSemicolon line) some
      refine ⟨trims, filled, line, by simp [split], statement, ?_⟩
      rw [String.toList_ofList]
      exact behindSemicolon_infix line
    · have within : other ∈ lines text := by simp [split, among]
      obtain ⟨trims, filled⟩ := tight (trim_of_mem_lines within) (isStatementLine_iff.1 isStatement).1
      exact ⟨trims, filled, other, within, isStatement, [], [], by simp⟩
  · constructor
    · intro free comment
      have some : behindSemicolon line ≠ [] := fun none => by simp [none, commentMark] at comment
      refine free _ (mem_body_iff.2 (.inl ⟨some, rfl⟩)) ?_
      rwa [String.toList_ofList]
    · intro free entry there
      rcases mem_body_iff.1 there with ⟨-, rfl⟩ | ⟨other, -, isStatement, rfl⟩
      · rwa [String.toList_ofList]
      · rw [String.toList_ofList]
        exact (isStatementLine_iff.1 isStatement).2

theorem body_uncommented_iff_sample : ∃ source,
    ofText? "%% title: T\nflowchart TD; A --> B\n  %% B --> C; C\n\n C --> D " = some source ∧
      source.body = ["A --> B", "C --> D"] ∧ ∀ entry ∈ source.body, ¬ commentMark <+: entry.toList := by
  have taken : ofText? "%% title: T\nflowchart TD; A --> B\n  %% B --> C; C\n\n C --> D " =
      some ⟨"flowchart TD", ["A --> B", "C --> D"], some "T"⟩ := by decide +kernel
  exact ⟨_, taken, rfl, (body_uncommented_iff taken).2.2 (by decide +kernel)⟩

/-- A comment behind the header is taken for a statement line, and what it holds behind a semicolon is read. -/
theorem body_ofText?_comment : ∃ source, ofText? "flowchart TD; %% note; A --> B" = some source ∧
    (∃ entry ∈ source.body, commentMark <+: entry.toList) ∧
      (Dialect.read .epoch .flowchart source.body).elements.keys = ["A", "B"] := by
  have taken : ofText? "flowchart TD; %% note; A --> B" =
      some ⟨"flowchart TD", ["%% note; A --> B"], none⟩ := by decide +kernel
  exact ⟨_, taken, ⟨_, List.mem_singleton_self _, by decide⟩, by decide +kernel⟩

end DiagramText.Source
