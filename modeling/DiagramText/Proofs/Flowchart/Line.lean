import DiagramText.Flowchart.Draft
import DiagramText.Proofs.Flowchart.Statement
import DiagramText.Proofs.Graph.Building
import DiagramText.Proofs.Line

/-! Printed flowchart lines. Each says one statement: it is a line of source by itself, nothing in it
separates statements, and it is read as the statement that it was printed from. -/
namespace DiagramText.Flowchart

open Reader (Reads Refuses Stops Follows)
open Text (IsWord)

/-- A line of which nothing is taken apart. -/
structure IsPiece (line : String) : Prop extends Source.IsLine line where
  whole : Text.unquotedPieces ';' false line.toList = [line.toList]

/-- A line that is one statement by itself. -/
structure Says (line : String) (s : Statement) : Prop extends IsPiece line where
  reads : Reads statement line.toList s []

theorem isLine_of_ends {line : String} (first : ∃ c cs, line.toList = c :: cs ∧ Text.isWordChar c)
    (last : Text.EndsSolid line.toList) (unbroken : '\n' ∉ line.toList) : Source.IsLine line where
  first := by
    obtain ⟨c, cs, split, word⟩ := first
    refine ⟨c, cs, split, ?_⟩
    rintro rfl
    exact absurd word (by decide)
  unbroken := unbroken
  tight := by
    obtain ⟨c, cs, split, word⟩ := first
    refine Text.trim_eq_self (fun d h => ?_) last
    obtain rfl : c = d := by simpa [split] using h
    exact Text.not_isBlank_of_isWordChar word

theorem IsPiece.statementTexts {line : String} (isPiece : IsPiece line) :
    statementTexts line.toList = [line.toList] := by
  obtain ⟨c, cs, split, -⟩ := isPiece.first
  have some : line.toList ≠ [] := by simp [split]
  rw [Flowchart.statementTexts, isPiece.whole, List.map_singleton, isPiece.tight]
  exact List.filter_cons_of_pos (by simpa using some)

namespace Says

variable {line : String} {s : Statement}

theorem ofText? (said : Says line s) : Statement.ofText? line.toList = some s := by
  rw [Statement.ofText?, said.tight]
  exact Reader.whole?_of_reads said.reads

theorem readLine (said : Says line s) (now : Instant) (d : Draft) :
    d.readLine now line = d.apply now s := by
  simp [Draft.readLine, said.statementTexts, Draft.readText, said.ofText?]

end Says

/-! ### Characters that stand outside labels -/

/-- A character that ends no line, separates no statements and opens no quotes. -/
def isPlain (c : Char) : Bool := c != '\n' && c != ';' && c != '"'

variable {front back : List Char} {id source target text line : String} {s : Statement}

theorem isPlain_of_isWordChar {c : Char} (word : Text.isWordChar c) : isPlain c := by
  simp only [isPlain, Bool.and_eq_true, bne_iff_ne]
  refine ⟨⟨?_, ?_⟩, ?_⟩ <;> rintro rfl <;> exact absurd word (by decide)

theorem plain_word (word : IsWord id) : ∀ c ∈ id.toList, isPlain c :=
  fun c h => isPlain_of_isWordChar (word.chars c h)

theorem unbroken_of_plain (plain : ∀ c ∈ front, isPlain c) : '\n' ∉ front :=
  fun h => absurd (plain _ h) (by decide)

theorem unquotedPieces_plain (plain : ∀ c ∈ front, isPlain c)
    (whole : Text.unquotedPieces ';' false back = [back]) :
    Text.unquotedPieces ';' false (front ++ back) = [front ++ back] := by
  apply Text.unquotedPieces_append _ whole
  intro c h
  have := plain c h
  simp only [isPlain, Bool.and_eq_true, bne_iff_ne] at this
  exact ⟨this.1.2, this.2⟩

theorem whole_of_plain (plain : ∀ c ∈ front, isPlain c) :
    Text.unquotedPieces ';' false front = [front] := by
  have := @unquotedPieces_plain front [] plain rfl
  rwa [List.append_nil] at this

/-- A line around one label. -/
theorem isPiece_labelled (front : List Char) (text : String) (back : List Char)
    (split : line.toList = front ++ ((labelText text).toList ++ back))
    (plainFront : ∀ c ∈ front, isPlain c) (plainBack : ∀ c ∈ back, isPlain c)
    (first : ∃ c cs, front = c :: cs ∧ Text.isWordChar c) (last : back ≠ [] ∧ Text.EndsSolid back) :
    IsPiece line := by
  refine ⟨isLine_of_ends ?_ ?_ ?_, ?_⟩ <;> rw [split]
  · obtain ⟨c, cs, rfl, word⟩ := first
    exact ⟨c, _, rfl, word⟩
  · rw [← List.append_assoc]
    exact last.2.append_of_ne_nil last.1 _
  · simp only [List.mem_append, not_or]
    exact ⟨unbroken_of_plain plainFront, not_mem_labelText text, unbroken_of_plain plainBack⟩
  · exact unquotedPieces_plain plainFront (unquotedPieces_labelText text (whole_of_plain plainBack))

theorem isPiece_plain (plain : ∀ c ∈ line.toList, isPlain c)
    (first : ∃ c cs, line.toList = c :: cs ∧ Text.isWordChar c) (last : Text.EndsSolid line.toList) :
    IsPiece line := ⟨isLine_of_ends first last (unbroken_of_plain plain), whole_of_plain plain⟩

/-! ### The lines -/

theorem plain_shape (s : Shape) :
    (∀ c ∈ s.opening.toList, isPlain c) ∧ ∀ c ∈ s.closing.toList, isPlain c := by
  cases s <;> exact ⟨Text.forall_mem_of_all (by decide), Text.forall_mem_of_all (by decide)⟩

theorem closing_last (s : Shape) : s.closing.toList ≠ [] ∧ Text.EndsSolid s.closing.toList := by
  cases s <;> decide

theorem stops_opening (s : Shape) (rest : List Char) :
    Stops Text.isInlineBlank (s.opening.toList ++ rest) := by
  obtain ⟨c, cs, opening, bracket⟩ := s.opening_first
  have notBlank : ∀ c ∈ ['[', '(', '\x7b', '>'], Text.isInlineBlank c = false :=
    Text.forall_mem_of_all rfl
  rw [opening, List.cons_append, Reader.stops_cons]
  exact notBlank c bracket

/-- A bracket follows an id at once. -/
theorem follows_opening (s : Shape) (rest : List Char) : Follows (s.opening.toList ++ rest) := by
  have none : ∀ c ∈ ([] : List Char), Text.isInlineBlank c := by simp
  have gap : (s.opening.toList ++ rest).dropWhile Text.isInlineBlank = s.opening.toList ++ rest :=
    Reader.dropWhile_append none (stops_opening s rest)
  obtain ⟨c, cs, opening, bracket⟩ := s.opening_first
  have stops : Stops Text.isWordChar (s.opening.toList ++ rest) := by
    rw [opening, List.cons_append, Reader.stops_cons]
    exact not_wordChar_of_bracket bracket
  refine ⟨?_, stops, gap.symm ▸ stops⟩
  rw [opening]
  exact List.cons_ne_nil _ _

theorem toList_nodeText (e : Element) : (nodeText e).toList = e.id.toList ++
    ((shapeOf e).opening.toList ++ ((labelText e.label).toList ++ (shapeOf e).closing.toList)) := by
  simp [nodeText]

theorem isPiece_nodeText {e : Element} (word : IsWord e.id) : IsPiece (nodeText e) := by
  refine isPiece_labelled (e.id.toList ++ (shapeOf e).opening.toList) e.label (shapeOf e).closing.toList
    ?_ ?_ (plain_shape _).2 (word.first _) (closing_last _)
  · rw [toList_nodeText, List.append_assoc]
  · exact List.forall_mem_append.2 ⟨plain_word word, (plain_shape _).1⟩

/-- The line of a node. -/
theorem says_nodeText {e : Element} (word : IsWord e.id) (keeps : Keeps e.label) :
    Says (nodeText e) (.node ⟨e.id, some (carried e.label, shapeOf e), none⟩) where
  toIsPiece := isPiece_nodeText word
  reads := by
    rw [toList_nodeText]
    exact reads_statement_node word (follows_opening _ _) (stops_opening _ _)
      (reads_nodeRef_body word _ keeps)

theorem reads_titledGroup (word : IsWord id) (keeps : Keeps text) :
    Reads titledGroup (id.toList ++ ' ' :: '[' :: ((labelText text).toList ++ [']']))
      (id, carried text) [] := by
  have bracket (cs : List Char) : Reads (Reader.token "[") ('[' :: cs) () cs :=
    Reader.reads_token_char rfl cs
  have closing : Reads (Reader.token "]") [']'] () [] := Reader.reads_token_char rfl []
  have inside : Reads (label endsLabel) ((labelText text).toList ++ [']']) (carried text) [']'] :=
    reads_label (fun c h => by simp [endsSlantedLabel, h]) keeps (by decide)
  exact (Reader.reads_identifier word (by simp; decide)).bind
    ((Reader.reads_space (by simp; decide)).bind
      ((bracket _).bind (inside.bind (closing.bind (Reads.pure _ [])))))

theorem trim_header (word : IsWord id) (cs : List Char) :
    Text.trim (id.toList ++ (cs ++ [']'])) = id.toList ++ (cs ++ [']']) :=
  word.trim_append cs (List.cons_ne_nil _ _) (by decide)

/-- Whatever follows the keyword and a blank is the header of a subgraph. -/
theorem reads_opener {header : List Char} (stops : Stops Text.isInlineBlank header) (tight : Text.trim header = header) :
    Reads subgraph ("subgraph".toList ++ ' ' :: header) (.subgraph (groupHeader header).1 (groupHeader header).2) [] := by
  have taken : Reads (optional (Reader.inlineBlanks1 *> Reader.rest)) (' ' :: header) (some header) [] :=
    ((Reader.reads_space1 stops).seqRight (Reader.reads_rest _)).optional
  refine (Reader.reads_token "subgraph" _).bind (taken.bind (Reader.reads_atEnd.bind ?_))
  simp only [Option.getD_some, tight]
  exact Reads.pure _ []

theorem reads_subgraph (word : IsWord id) (keeps : Keeps text) :
    Reads subgraph ("subgraph".toList ++
        ' ' :: (id.toList ++ ' ' :: '[' :: ((labelText text).toList ++ [']'])))
      (.subgraph id (carried text)) [] := by
  have tight := trim_header word ([' ', '['] ++ (labelText text).toList)
  simp only [List.cons_append, List.nil_append] at tight
  have titled : groupHeader (id.toList ++ ' ' :: '[' :: ((labelText text).toList ++ [']'])) =
      (id, carried text) := by
    unfold groupHeader
    rw [if_neg (by simp), Reader.whole?_of_reads (reads_titledGroup word keeps)]
  have taken := reads_opener (word.stops _) tight
  rwa [titled] at taken

theorem toList_groupText (e : Element) : (groupText e).toList = "subgraph".toList ++
    ' ' :: (e.id.toList ++ ' ' :: '[' :: ((labelText e.label).toList ++ [']'])) := by
  simp [groupText]

theorem isPiece_groupText {e : Element} (word : IsWord e.id) : IsPiece (groupText e) := by
  refine isPiece_labelled ("subgraph".toList ++ ' ' :: (e.id.toList ++ [' ', '['])) e.label [']']
    ?_ ?_ (Text.forall_mem_of_all rfl) ⟨'s', _, rfl, by decide⟩ (by decide)
  · rw [toList_groupText]
    simp
  · rw [List.forall_mem_append, List.forall_mem_cons, List.forall_mem_append]
    exact ⟨Text.forall_mem_of_all rfl, by decide, plain_word word, Text.forall_mem_of_all rfl⟩

/-- The line that opens a subgraph. -/
theorem says_groupText {e : Element} (word : IsWord e.id) (keeps : Keeps e.label) :
    Says (groupText e) (.subgraph e.id (carried e.label)) where
  toIsPiece := isPiece_groupText word
  reads := by
    rw [toList_groupText]
    exact (reads_subgraph word keeps).orElse

theorem says_end : Says "end" .close where
  toIsPiece := isPiece_plain (Text.forall_mem_of_all rfl) ⟨'e', _, rfl, by decide⟩ (by decide)
  reads := rfl

theorem plain_token (a : Arrow) : ∀ c ∈ a.token.toList, isPlain c := by
  cases a <;> exact Text.forall_mem_of_all rfl

/-- An arrow follows an id, after blanks or at once. -/
theorem follows_arrow_blanks {bs : List Char} (blank : ∀ c ∈ bs, Text.isInlineBlank c) (a : Arrow)
    (rest : List Char) : Follows (bs ++ (a.token.toList ++ rest)) := by
  obtain ⟨c, cs, token, sign⟩ := a.token_first
  have signs : ∀ c ∈ ['-', '=', '~'], Text.isWordChar c = false := Text.forall_mem_of_all rfl
  have stops : Stops Text.isWordChar (a.token.toList ++ rest) := by
    rw [token, List.cons_append, Reader.stops_cons]
    exact signs c sign
  refine ⟨by simp [token], Text.stops_blanks blank fun _ => stops, ?_⟩
  rw [Reader.dropWhile_append blank (stops_token a rest)]
  exact stops

theorem follows_arrow (a : Arrow) (rest : List Char) : Follows (' ' :: (a.token.toList ++ rest)) := by
  have blank : ∀ c ∈ [' '], Text.isInlineBlank c := Text.forall_mem_of_all rfl
  exact follows_arrow_blanks blank a rest

theorem toList_edgeText_bare {c : Connection} (bare : c.hasLabel = false) : (edgeText c).toList =
    c.source.toList ++ (' ' :: ((Arrow.ofKey c.kind).token.toList ++ ' ' :: c.target.toList)) := by
  simp [edgeText, bare]

theorem toList_edgeText_labelled {c : Connection} (labelled : c.hasLabel) : (edgeText c).toList =
    c.source.toList ++ (' ' :: ((Arrow.ofKey c.kind).token.toList ++
      '|' :: ((labelText c.label).toList ++ '|' :: ' ' :: c.target.toList))) := by
  simp [edgeText, labelled]

theorem isPiece_edgeText {c : Connection} (source : IsWord c.source) (target : IsWord c.target) :
    IsPiece (edgeText c) := by
  have solid (front : List Char) : Text.EndsSolid (front ++ c.target.toList) :=
    target.endsSolid.append_of_ne_nil target.some front
  cases labelled : c.hasLabel with
  | false =>
    have split := toList_edgeText_bare labelled
    refine isPiece_plain ?_ ?_ ?_ <;> rw [split]
    · simp only [List.forall_mem_append, List.forall_mem_cons]
      exact ⟨plain_word source, by decide, plain_token _, by decide, plain_word target⟩
    · exact source.first _
    · have ends := solid (c.source.toList ++ (' ' :: ((Arrow.ofKey c.kind).token.toList ++ [' '])))
      simpa using ends
  | true =>
    refine isPiece_labelled (c.source.toList ++ ' ' :: ((Arrow.ofKey c.kind).token.toList ++ ['|']))
      c.label ('|' :: ' ' :: c.target.toList) ?_ ?_ ?_
      (source.first _) ⟨List.cons_ne_nil _ _, solid ['|', ' ']⟩
    · rw [toList_edgeText_labelled labelled]
      simp
    · simp only [List.forall_mem_append, List.forall_mem_cons]
      exact ⟨plain_word source, by decide, plain_token _, by decide, by simp⟩
    · simp only [List.forall_mem_cons]
      exact ⟨by decide, by decide, plain_word target⟩

/-- The line of a connection, whatever its label. -/
theorem says_edgeText_any {c : Connection} (source : IsWord c.source) (other : c.source ≠ "subgraph")
    (target : IsWord c.target) : Says (edgeText c) (.chain ⟨c.source, none, none⟩ [⟨Arrow.ofKey c.kind,
      if c.hasLabel then Reader.nonEmpty (Text.trimmed (carried c.label)) else none, ⟨c.target, none, none⟩⟩]) where
  toIsPiece := isPiece_edgeText source target
  reads := by
    have noGroup {rest : List Char} (follows : Follows rest) : Refuses subgraph (c.source.toList ++ rest) :=
      refuses_subgraph source follows fun same => absurd same other
    cases labelled : c.hasLabel with
    | false =>
      rw [toList_edgeText_bare labelled]
      have follows := follows_arrow (Arrow.ofKey c.kind) (' ' :: c.target.toList)
      exact reads_statement_chain source follows (noGroup follows)
        (reads_chain source (by simp) (reads_link_plain (Arrow.ofKey c.kind) target))
    | true =>
      rw [toList_edgeText_labelled labelled]
      have follows := follows_arrow (Arrow.ofKey c.kind)
        ('|' :: ((labelText c.label).toList ++ '|' :: ' ' :: c.target.toList))
      exact reads_statement_chain source follows (noGroup follows)
        (reads_chain source (by simp) (reads_link_labelled (Arrow.ofKey c.kind) c.label target))

/-- What the line of a connection says. -/
def edgeLink (c : Connection) : Link :=
  ⟨Arrow.ofKey c.kind, if c.label = "" then none else some (carried c.label), ⟨c.target, none, none⟩⟩

/-- The line of a connection. -/
theorem says_edgeText {c : Connection} (source : IsWord c.source) (other : c.source ≠ "subgraph")
    (target : IsWord c.target) (tight : Text.trimmed c.label = c.label) :
    Says (edgeText c) (.chain ⟨c.source, none, none⟩ [edgeLink c]) := by
  have said := says_edgeText_any source other target
  have label : (if c.hasLabel then Reader.nonEmpty (Text.trimmed (carried c.label)) else none) =
      if c.label = "" then none else some (carried c.label) := by
    by_cases none : c.label = ""
    · rw [if_pos none, if_neg (mt (Connection.hasLabel_iff tight).1 (not_not_intro none))]
    · rw [if_neg none, if_pos ((Connection.hasLabel_iff tight).2 none), trimmed_carried tight]
      exact if_neg (mt carried_eq_empty_iff.1 none)
  rwa [label] at said

end DiagramText.Flowchart
