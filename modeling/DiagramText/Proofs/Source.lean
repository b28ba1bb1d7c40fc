import DiagramText.Layout
import DiagramText.Source
import DiagramText.Proofs.Prefix

/-! Printed source taken apart again. The header, the lines of the body and the title come back, as
long as every line of the body is a statement: one line, neither blank nor a comment. -/
namespace DiagramText

/-- The title that source shows. -/
def Layout.shownTitle? (l : Layout) (m : Metadata) : Option String :=
  m.title.bind fun title =>
    if l.emitTitle && !Text.isBlankText title then some (Text.trimmed (Text.oneLine title)) else none

/-- The title that source shows is shown as it is. -/
theorem Layout.titleLines_shownTitle? (l : Layout) {m n : Metadata}
    (shown : n.title = l.shownTitle? m) : l.titleLines n = l.titleLines m := by
  unfold titleLines
  rw [shown, shownTitle?]
  cases m.title with
  | none => rfl
  | some title =>
    simp only [Option.bind_some]
    by_cases h : (l.emitTitle && !Text.isBlankText title) = true
    · simp only [h, if_true, Text.isBlankText_trimmed, Text.isBlankText_oneLine,
        Text.oneLine_trimmed_oneLine, Text.trimmed_trimmed]
    · simp only [h, if_false, Bool.false_eq_true]

namespace Source

/-- A line that is neither broken nor blank nor a comment. -/
structure IsStatement (line : List Char) : Prop where
  unbroken : '\n' ∉ line
  notBlank : Text.trim line ≠ []
  noComment : ¬ commentMark <+: Text.trim line

/-- Indentation makes no difference. -/
theorem trim_indented (l : Layout) (depth : Nat) (line : String) :
    Text.trim (l.indented depth line).toList = Text.trim line.toList := by
  rw [Layout.indented, String.toList_append, Layout.pad, String.toList_ofList]
  apply Text.trim_append_left
  intro c hc
  rw [List.eq_of_mem_replicate hc]
  decide

theorem trimmed_indented (l : Layout) (depth : Nat) (line : String) :
    Text.trimmed (l.indented depth line) = Text.trimmed line := by
  rw [Text.trimmed, trim_indented, Text.trimmed]

theorem unbroken_indented {line : String} (free : '\n' ∉ line.toList) (l : Layout) (depth : Nat) :
    '\n' ∉ (l.indented depth line).toList := by
  rw [Layout.indented, String.toList_append, Layout.pad, String.toList_ofList, List.mem_append]
  rintro (h | h)
  · have := List.eq_of_mem_replicate h
    contradiction
  · exact free h

theorem IsStatement.indented {line : String} (statement : IsStatement line.toList) (l : Layout)
    (depth : Nat) : IsStatement (l.indented depth line).toList where
  unbroken := unbroken_indented statement.unbroken l depth
  notBlank := by rw [trim_indented]; exact statement.notBlank
  noComment := by rw [trim_indented]; exact statement.noComment

/-! ### Lines of broken texts -/

/-- The lines that a text comes to, each of them trimmed. -/
def fragments (text : String) : List (List Char) := (Text.pieces '\n' text.toList).map Text.trim

/-- Indentation makes no difference, however many lines a text comes to. -/
theorem fragments_indented (l : Layout) (depth : Nat) (text : String) :
    fragments (l.indented depth text) = fragments text := by
  have blank : ∀ c ∈ (l.pad depth).toList, c = ' ' := by
    rw [Layout.pad, String.toList_ofList]
    exact fun c => List.eq_of_mem_replicate
  have free : '\n' ∉ (l.pad depth).toList := fun broken => absurd (blank _ broken) (by decide)
  rw [fragments, Layout.indented, String.toList_append, fragments]
  exact Text.map_trim_pieces_append_left (fun c h => blank c h ▸ rfl) free _

theorem flatMap_fragments {texts : List String} (unbroken : ∀ t ∈ texts, '\n' ∉ t.toList) :
    texts.flatMap fragments = texts.map fun t => Text.trim t.toList := by
  rw [List.map_eq_flatMap]
  refine List.flatMap_congr fun t there => ?_
  rw [fragments, Text.pieces_eq_singleton (unbroken t there), List.map_singleton]

/-! ### Lines taken one after the other -/

theorem foldl_take_nil_append (p : Parts) (ls : List (List Char)) :
    (ls ++ [[]]).foldl Parts.take p = ls.foldl Parts.take p := by
  simp [Parts.take]

/-- A text is taken line by line. -/
theorem parts_eq_foldl_fragments (text : String) : parts text = (fragments text).foldl Parts.take .empty := by
  rw [parts, lines, Text.lines, fragments]
  rcases Text.map_trim_linesOfPieces (Text.pieces '\n' text.toList) with same | same
  · rw [same]
  · rw [same, foldl_take_nil_append]

/-- Joined texts are taken line by line, whether they are broken or not. -/
theorem parts_joinLines {texts : List String} (some : texts ≠ []) :
    parts (Text.joinLines texts) = (texts.flatMap fragments).foldl Parts.take .empty := by
  rw [parts_eq_foldl_fragments, fragments, Text.pieces_joinLines_flatMap some, List.map_flatMap]
  rfl

/-- A line gives one line to the body at most. -/
theorem length_body_take_le (p : Parts) (line : List Char) :
    (p.take line).body.length ≤ p.body.length + 1 := by
  unfold Parts.take
  split
  · exact Nat.le_succ _
  · split
    · exact Nat.le_succ _
    · split
      · simp [Parts.pushBody]
      · unfold Parts.takeHeader
        split
        · split <;> simp [Parts.pushBody]
        · exact Nat.le_succ _

theorem length_body_le {text : String} {source : Source} (taken : ofText? text = some source) :
    source.body.length ≤ text.length + 1 := by
  have folded (p : Parts) (ls : List (List Char)) :
      (ls.foldl Parts.take p).body.length ≤ p.body.length + ls.length := by
    induction ls generalizing p with
    | nil => exact Nat.le_refl _
    | cons line ls ih =>
      have first := length_body_take_le p line
      have others := ih (p.take line)
      rw [List.foldl_cons, List.length_cons]
      omega
  obtain ⟨header, -, rfl⟩ := Option.map_eq_some_iff.1 taken
  have all := folded .empty (lines text)
  have few := Text.length_lines_le text.toList
  rw [lines, List.length_map] at all
  rw [String.length_toList] at few
  exact Nat.le_trans all (by simpa [Parts.empty] using few)

/-- The body has no line with a break in it. -/
theorem unbroken_body {text : String} {source : Source} (taken : ofText? text = some source) :
    ∀ line ∈ source.body, '\n' ∉ line.toList := by
  have push {p : Parts} (before : ∀ l ∈ p.body, '\n' ∉ l.toList) {line : List Char} (free : '\n' ∉ line) :
      ∀ l ∈ (p.pushBody line).body, '\n' ∉ l.toList := by
    rw [Parts.pushBody, List.forall_mem_append, List.forall_mem_singleton, String.toList_ofList]
    exact ⟨before, free⟩
  have step {p : Parts} (before : ∀ l ∈ p.body, '\n' ∉ l.toList) {line : List Char} (free : '\n' ∉ line) :
      ∀ l ∈ (p.take line).body, '\n' ∉ l.toList := by
    unfold Parts.take Parts.takeHeader
    split
    · exact before
    · split
      · exact before
      · split
        · exact push before free
        · split
          · next declaration rest cut =>
            rw [Text.cut?_eq_some cut, List.mem_append, List.mem_cons, not_or, not_or] at free
            dsimp only
            split
            · exact before
            · exact push before fun h => free.2.2 (Text.mem_of_mem_trim h)
          · exact before
  have folded {p : Parts} (before : ∀ l ∈ p.body, '\n' ∉ l.toList) {ls : List (List Char)}
      (free : ∀ l ∈ ls, '\n' ∉ l) : ∀ l ∈ (ls.foldl Parts.take p).body, '\n' ∉ l.toList := by
    induction ls generalizing p with
    | nil => exact before
    | cons line ls ih =>
      rw [List.forall_mem_cons] at free
      exact ih (step before free.1) free.2
  obtain ⟨header, -, rfl⟩ := Option.map_eq_some_iff.1 taken
  refine folded (by simp [Parts.empty]) fun line h => ?_
  obtain ⟨whole, there, rfl⟩ := List.mem_map.1 h
  exact fun within => Text.not_mem_of_mem_lines there (Text.mem_of_mem_trim within)

/-- The first statement is the header, every other one belongs to the body. -/
theorem take_of_statement (p : Parts) {line : List Char} (notBlank : line ≠ [])
    (noComment : ¬ commentMark <+: line) :
    p.take line = if p.header.isSome then p.pushBody line else p.takeHeader line := by
  unfold Parts.take
  rw [if_neg notBlank, Text.isPrefixOf?_eq_none_iff.2 noComment]

theorem take_header {line : String} (statement : IsStatement line.toList)
    (whole : ';' ∉ line.toList) (tight : Text.trimmed line = line) :
    Parts.empty.take (Text.trim line.toList) = ⟨some line, [], none⟩ := by
  have uncut : Text.cut? ';' line.toList = none := Text.cut?_eq_none whole
  have same : Text.trim line.toList = line.toList := by rw [← Text.toList_trimmed, tight]
  rw [take_of_statement _ statement.notBlank statement.noComment]
  simp [Parts.empty, Parts.takeHeader, same, uncut]

/-- What a line gives to the body under a header. -/
def bodyLine? (line : List Char) : Option String :=
  if line = [] ∨ commentMark <+: line then none else some (String.ofList line)

/-- The lines that a text gives to the body under a header. -/
def bodyLines (text : String) : List String := (fragments text).filterMap bodyLine?

/-- The title that a line gives. -/
def lineTitle? (line : List Char) : Option String := (commentMark.isPrefixOf? line).bind titleOf?

theorem bodyLine?_of_statement {line : String} (statement : IsStatement line.toList) :
    bodyLine? (Text.trim line.toList) = some (Text.trimmed line) :=
  if_neg (not_or.2 ⟨statement.notBlank, statement.noComment⟩)

theorem bodyLines_of_statement {line : String} (statement : IsStatement line.toList) :
    bodyLines line = [Text.trimmed line] := by
  rw [bodyLines, fragments, Text.pieces_eq_singleton statement.unbroken, List.map_singleton,
    List.filterMap_cons_some (bodyLine?_of_statement statement), List.filterMap_nil]

/-- The lines that a text gives hold no other characters than the text. -/
theorem mem_of_mem_bodyLines {c : Char} {line text : String} (given : line ∈ bodyLines text)
    (h : c ∈ line.toList) : c ∈ text.toList := by
  obtain ⟨fragment, among, made⟩ := List.mem_filterMap.1 given
  obtain ⟨piece, cut, rfl⟩ := List.mem_map.1 among
  unfold bodyLine? at made
  split at made
  · cases made
  · obtain rfl := Option.some.inj made
    rw [String.toList_ofList] at h
    exact Text.mem_of_mem_pieces cut (Text.mem_of_mem_trim h)

theorem lineTitle?_of_statement {line : String} (statement : IsStatement line.toList) :
    lineTitle? (Text.trim line.toList) = none := by
  rw [lineTitle?, Text.isPrefixOf?_eq_none_iff.2 statement.noComment, Option.bind_none]

/-- Under a header, a line goes to the body or may give the title. -/
theorem take_of_header (header : String) (body : List String) (title : Option String) (line : List Char) :
    (Parts.mk (some header) body title).take line =
      ⟨some header, body ++ (bodyLine? line).toList, title <|> lineTitle? line⟩ := by
  by_cases blank : line = []
  · simp [Parts.take, bodyLine?, lineTitle?, blank, commentMark, List.isPrefixOf?]
  · cases comment : commentMark.isPrefixOf? line with
    | none =>
      have unmarked := Text.isPrefixOf?_eq_none_iff.1 comment
      simp [take_of_statement _ blank unmarked, bodyLine?, lineTitle?, blank, unmarked, comment, Parts.pushBody]
    | some rest =>
      have marked : commentMark <+: line := by
        by_contra unmarked
        rw [Text.isPrefixOf?_eq_none_iff.2 unmarked] at comment
        cases comment
      simp [Parts.take, bodyLine?, lineTitle?, blank, marked, comment]

theorem foldl_take_of_header (header : String) (body : List String) (title : Option String)
    (lines : List (List Char)) : lines.foldl Parts.take ⟨some header, body, title⟩ =
      ⟨some header, body ++ lines.filterMap bodyLine?, title <|> lines.findSome? lineTitle?⟩ := by
  induction lines generalizing body title with
  | nil => simp
  | cons line lines ih =>
    rw [List.foldl_cons, take_of_header, ih, List.append_assoc, List.filterMap_cons, List.findSome?_cons]
    congr 1
    · cases bodyLine? line <;> simp
    · cases title <;> cases lineTitle? line <;> simp

/-! ### The title -/

theorem titleOf?_titleMark {title : List Char} (some : title ≠ []) (tight : Text.trim title = title) :
    titleOf? (' ' :: (titleMark ++ ' ' :: title)) = .some (String.ofList title) := by
  have space : ∀ c ∈ [' '], Text.isBlank c := Text.forall_mem_of_all rfl
  have value : Text.trim (' ' :: title) = title := (Text.trim_append_left space title).trans tight
  have sentence : Text.trim (' ' :: (titleMark ++ ' ' :: title)) = titleMark ++ ' ' :: title := by
    refine (Text.trim_append_left space _).trans ?_
    exact Text.trim_cons_append 't' "itle: ".toList (by decide) some tight
  unfold titleOf?
  rw [sentence, Text.isPrefixOf?_append]
  simp [value, some]

theorem take_title {p : Parts} (untitled : p.title = none) {title : List Char} (some : title ≠ [])
    (tight : Text.trim title = title) :
    p.take (Text.trim ("%% title: ".toList ++ title)) =
      { p with title := .some (String.ofList title) } := by
  have line : Text.trim ("%% title: ".toList ++ title) =
      commentMark ++ ' ' :: (titleMark ++ ' ' :: title) :=
    Text.trim_cons_append '%' "% title: ".toList (by decide) some tight
  unfold Parts.take
  rw [line, if_neg (by simp [commentMark]), Text.isPrefixOf?_append]
  simp [untitled, titleOf?_titleMark some tight]

theorem foldl_take_titleLines {p : Parts} (untitled : p.title = none) (l : Layout) (m : Metadata) :
    ((l.titleLines m).map fun line => Text.trim line.toList).foldl Parts.take p =
      { p with title := l.shownTitle? m } := by
  have kept : p = { p with title := none } := by rw [← untitled]
  unfold Layout.titleLines Layout.shownTitle?
  cases m.title with
  | none => exact kept
  | some title =>
    by_cases shown : (l.emitTitle && !Text.isBlankText title) = true
    · have some : (Text.trimmed (Text.oneLine title)).toList ≠ [] := by
        have notBlank : ¬ Text.isBlankText (Text.oneLine title) := by
          rw [Bool.and_eq_true, Bool.not_eq_true'] at shown
          rw [Text.isBlankText_oneLine, shown.2]
          exact Bool.false_ne_true
        rwa [Text.isBlankText_iff, ← Text.toList_trimmed] at notBlank
      have tight : Text.trim (Text.trimmed (Text.oneLine title)).toList =
          (Text.trimmed (Text.oneLine title)).toList := by simp
      simp only [shown, if_true, List.map_cons, List.map_nil, List.foldl_cons, List.foldl_nil,
        trim_indented, String.toList_append, Option.bind_some]
      rw [take_title untitled some tight, String.ofList_toList]
    · simp only [shown, if_false, Bool.false_eq_true, Option.bind_some]
      exact kept

/-! ### The whole text -/

/-- A header that stands for itself: a statement, whole and trimmed. -/
structure IsHeader (header : String) : Prop where
  statement : IsStatement header.toList
  whole : ';' ∉ header.toList
  tight : Text.trimmed header = header

theorem not_mem_titleLines (l : Layout) (m : Metadata) :
    ∀ line ∈ l.titleLines m, '\n' ∉ line.toList := by
  have padded (title : String) : '\n' ∉ (l.indented 1 ("%% title: " ++
      Text.trimmed (Text.oneLine title))).toList := by
    have free : '\n' ∉ Text.trim (Text.singleLine title.toList) := fun h =>
      (Text.not_break_of_mem_singleLine (Text.mem_of_mem_trim h)).1 rfl
    simp [Layout.indented, Layout.pad, free]
  unfold Layout.titleLines
  cases m.title with
  | none => simp
  | some title =>
    simp only
    split
    · simpa using padded title
    · simp

/-- Printed source taken apart, whatever its body holds. -/
theorem ofText?_source_fragments (l : Layout) (m : Metadata) {header : String} (isHeader : IsHeader header)
    (body : List String) : ofText? (l.source header m body) =
      some ⟨header, (body.flatMap fragments).filterMap bodyLine?,
        l.shownTitle? m <|> (body.flatMap fragments).findSome? lineTitle?⟩ := by
  have above : (header :: l.titleLines m).flatMap fragments =
      (header :: l.titleLines m).map fun t => Text.trim t.toList :=
    flatMap_fragments (List.forall_mem_cons.2 ⟨isHeader.statement.unbroken, not_mem_titleLines l m⟩)
  have taken : parts (l.source header m body) =
      (body.flatMap fragments).foldl Parts.take ⟨some header, [], l.shownTitle? m⟩ := by
    rw [Layout.source, parts_joinLines (by simp), List.flatMap_append, above, List.foldl_append, List.map_cons,
      List.foldl_cons, take_header isHeader.statement isHeader.whole isHeader.tight]
    exact congrArg (List.foldl Parts.take · _) (foldl_take_titleLines rfl l m)
  rw [ofText?, taken, foldl_take_of_header]
  rfl

/-- Printed source, taken apart again. -/
theorem ofText?_source (l : Layout) (m : Metadata) {header : String} {body : List String}
    (isHeader : IsHeader header) (statements : ∀ line ∈ body, IsStatement line.toList) :
    ofText? (l.source header m body) = some ⟨header, body.map Text.trimmed, l.shownTitle? m⟩ := by
  have kept : (body.map fun l => Text.trim l.toList).filterMap bodyLine? = body.map Text.trimmed := by
    rw [List.filterMap_map, ← List.filterMap_eq_map]
    exact List.filterMap_congr fun line there => bodyLine?_of_statement (statements line there)
  have untitled : (body.map fun l => Text.trim l.toList).findSome? lineTitle? = none := by
    rw [List.findSome?_eq_none_iff, List.forall_mem_map]
    exact fun line there => lineTitle?_of_statement (statements line there)
  rw [ofText?_source_fragments l m isHeader, flatMap_fragments fun line there => (statements line there).unbroken,
    kept, untitled]
  simp

end Source
end DiagramText
