import DiagramText.Proofs.Flowchart.Line
import DiagramText.Proofs.Reader.Results

/-! How well labels are bracketed. A label is read back from between the brackets it is printed in,
unless it stands bare with a tab in it: the grammar ends a bare label there, and no bracket that
could close it has come yet. -/
namespace DiagramText.Flowchart

open Reader (Reads Refuses Stops Follows)
open Text (IsWord)

variable {id text : String} {cs front back rest : List Char} {e : Element}

/-! ### What comes before a tab -/

/-- The last characters of the brackets that close a label. -/
def closers : List Char := [']', ')', '\x7d']

theorem closing_closes (s : Shape) : ∃ c ∈ s.closing.toList, c ∈ closers := by
  have some : s.closing.toList.any closers.contains := by cases s <;> rfl
  simpa using some

theorem opening_opens (s : Shape) : ∀ c ∈ s.opening.toList, c ∉ closers :=
  Text.forall_mem_of_all (by cases s <;> rfl)

theorem not_tab_of_shape (s : Shape) : '\t' ∉ s.opening.toList ∧ '\t' ∉ s.closing.toList := by cases s <;> decide

theorem not_quote_of_shape (s : Shape) : '"' ∉ s.opening.toList ∧ '"' ∉ s.closing.toList := by cases s <;> decide

theorem IsBare.not_mem (bare : IsBare cs) {c : Char} (trigger : c ∈ quoteTriggers) : c ∉ cs :=
  fun there => bare.free c there trigger

/-- What starts a line and has no tab ends before the first one, and nothing is closed by then. -/
theorem not_closed_before_tab (bare : IsBare cs) (tab : '\t' ∈ cs) (opens : ∀ c ∈ front, c ∉ closers)
    {taken : List Char} (free : '\t' ∉ taken) (starts : taken <+: front ++ (cs ++ back)) : ∀ c ∈ taken, c ∉ closers := by
  obtain ⟨before, after, rfl, first⟩ := List.eq_append_cons_of_mem tab
  have solid : ∀ c ∈ taken, c != '\t' := by
    intro c there
    rw [bne_iff_ne]
    exact fun same => free (same ▸ there)
  have stops : Reader.Stops (· != '\t') ('\t' :: (after ++ back)) := by simp
  have within : taken <+: front ++ before := Reader.prefix_of_stops solid stops (by simpa using starts)
  intro c there
  rcases List.mem_append.1 (within.subset there) with outside | inside
  · exact opens c outside
  · intro closes
    have trigger : closers ⊆ quoteTriggers := by decide
    exact bare.free c (by simp [inside]) (trigger closes)

/-- A bare label and what closes it, taken off a text without quotes, have no tab before the end. -/
theorem closedLabel_eq_some {β : Type} {ends : Char → Bool} (tab : ends '\t') {closing : String} {f : String → β} {b : β}
    (quote : '"' ∉ cs) (taken : (do
      let text ← label ends
      Reader.token closing
      pure (f text) : Reader β) cs = some (b, rest)) :
    ∃ inside, cs = inside ++ (closing.toList ++ rest) ∧ '\t' ∉ inside := by
  obtain ⟨text, mid, labelled, closed⟩ := Reader.bind_eq_some taken
  obtain ⟨_, left, token, made⟩ := Reader.bind_eq_some closed
  obtain ⟨-, rfl⟩ := Reader.pure_eq_some made
  rw [← Reader.token_eq_some token]
  rcases Reader.orElse_eq_some labelled with quoted | bare
  · obtain ⟨_, _, mark, -⟩ := Reader.bind_eq_some quoted
    exact absurd (by simp [Reader.token_eq_some mark]) quote
  · obtain ⟨inside, left, run, made⟩ := Reader.bind_eq_some bare
    obtain ⟨-, rfl⟩ := Reader.pure_eq_some made
    obtain ⟨split, -, all⟩ := Reader.run1_eq_some run
    refine ⟨inside, split, fun there => ?_⟩
    have := all _ there
    rw [tab] at this
    cases this

/-! ### Labels with a tab -/

/-- No brackets are read around a bare label with a tab. -/
theorem refuses_body_of_tab (s : Shape) (bare : IsBare cs) (tab : '\t' ∈ cs) :
    Refuses (Reader.firstOf (Shape.all.map shaped)) (s.opening.toList ++ (cs ++ s.closing.toList)) := by
  have quote : '"' ∉ s.opening.toList ++ (cs ++ s.closing.toList) := by
    simp only [List.mem_append, not_or]
    exact ⟨(not_quote_of_shape s).1, bare.not_mem (by decide), (not_quote_of_shape s).2⟩
  apply Reader.refuses_firstOf
  intro _ among
  obtain ⟨r, -, rfl⟩ := List.mem_map.1 among
  refine Option.eq_none_iff_forall_ne_some.2 fun p taken => ?_
  obtain ⟨_, mid, opened, labelled⟩ := Reader.bind_eq_some taken
  have split := Reader.token_eq_some opened
  rw [split, List.mem_append, not_or] at quote
  obtain ⟨inside, rfl, free⟩ := closedLabel_eq_some (by split <;> decide) quote.2 labelled
  obtain ⟨c, closing, closes⟩ := closing_closes r
  have untabbed : '\t' ∉ r.opening.toList ++ (inside ++ r.closing.toList) := by
    simp only [List.mem_append, not_or]
    exact ⟨(not_tab_of_shape r).1, free, (not_tab_of_shape r).2⟩
  exact not_closed_before_tab bare tab (opening_opens s) untabbed
    ⟨_, by rw [split, List.append_assoc, List.append_assoc]⟩ c (by simp [closing]) closes

/-- No arrow starts where brackets open. -/
theorem refuses_arrow (s : Shape) (rest : List Char) : Refuses Arrow.reader (s.opening.toList ++ rest) := by
  have apart : ∀ p ∈ Arrow.all.map fun a => (a.token, a), p.1.toList.head?.any fun c =>
      s.opening.toList.head?.any (c != ·) := by cases s <;> decide
  exact Reader.refuses_oneOf fun p there => Text.not_prefix_of_first (apart p there)

/-- The line of a node whose label stands bare with a tab is no statement. -/
theorem refuses_statement_of_tab (word : IsWord id) (s : Shape) (bare : IsBare cs) (tab : '\t' ∈ cs) :
    Refuses statement (id.toList ++ (s.opening.toList ++ (cs ++ s.closing.toList))) := by
  have follows := follows_opening s (cs ++ s.closing.toList)
  have apart := stops_opening s (cs ++ s.closing.toList)
  have noClass : ∀ c ∈ (s.opening.toList ++ (cs ++ s.closing.toList)).head?, c ≠ ':' := by cases s <;> simp [Shape.opening]
  have mention := reads_nodeRef_alone word follows.stops (refuses_body_of_tab s bare tab) noClass
  have noLink : Refuses link (s.opening.toList ++ (cs ++ s.closing.toList)) :=
    (Reader.reads_noBlanks apart).refuses_bind ((refuses_arrow s _).bind _)
  have noChain : Refuses chain (id.toList ++ (s.opening.toList ++ (cs ++ s.closing.toList))) :=
    mention.refuses_bind (Refuses.bind (Refuses.bind noLink _) _)
  have noNode : Refuses (do let ref ← nodeRef; Reader.atEnd; pure (Statement.node ref))
      (id.toList ++ (s.opening.toList ++ (cs ++ s.closing.toList))) :=
    mention.refuses_bind (Refuses.bind (Reader.refuses_atEnd follows.some) _)
  exact (refuses_subgraph word follows fun _ => apart).orElse_refuses ((refuses_close word follows).orElse_refuses
    ((refuses_style word follows).orElse_refuses ((refuses_directionLine word follows).orElse_refuses
      (noChain.orElse_refuses (noNode.orElse_refuses rfl)))))

/-- An id and a label in brackets are no titled group, if the label stands bare with a tab. -/
theorem refuses_titledGroup_of_tab (word : IsWord id) (bare : IsBare cs) (tab : '\t' ∈ cs) :
    Refuses titledGroup (id.toList ++ ' ' :: '[' :: (cs ++ [']'])) := by
  have quote : '"' ∉ cs ++ [']'] := by
    rw [List.mem_append, not_or]
    exact ⟨bare.not_mem (by decide), by decide⟩
  have unclosed : Refuses (do let text ← label endsLabel; Reader.token "]"; pure (id, text)) (cs ++ [']']) := by
    refine Option.eq_none_iff_forall_ne_some.2 fun p taken => ?_
    obtain ⟨inside, split, free⟩ := closedLabel_eq_some (by decide) quote taken
    have starts : inside ++ [']'] <+: [] ++ (cs ++ [']']) := ⟨p.2, by rw [List.nil_append, split, List.append_assoc]; rfl⟩
    exact not_closed_before_tab bare tab (List.forall_mem_nil _) (by simp [free]) starts ']' (by simp) (by decide)
  exact (Reader.reads_identifier word (by simp; decide)).refuses_bind ((Reader.reads_space (by simp; decide)).refuses_bind
    ((Reader.reads_token_char rfl _).refuses_bind unclosed))

theorem stripQuotes_eq_self (quote : '"' ∉ cs) : stripQuotes cs = cs := by
  have kept {ds : List Char} (free : '"' ∉ ds) : ds.dropWhile (· == '"') = ds := by
    cases ds with
    | nil => rfl
    | cons d ds =>
      rw [List.mem_cons, not_or] at free
      exact List.dropWhile_cons_of_neg (by simpa using Ne.symm free.1)
  rw [stripQuotes, kept quote, kept (by simpa using quote), List.reverse_reverse]

/-- Free text as an id. -/
def underscored (cs : List Char) : String := String.ofList (cs.map fun c => if Text.isAlphanumeric c then c else '_')

/-- The header of a subgraph whose label stands bare with a tab is free text. -/
theorem groupHeader_of_tab (word : IsWord id) (bare : IsBare cs) (tab : '\t' ∈ cs) :
    groupHeader (id.toList ++ ' ' :: '[' :: (cs ++ [']'])) =
      (underscored (id.toList ++ ' ' :: '[' :: (cs ++ [']'])), String.ofList (id.toList ++ ' ' :: '[' :: (cs ++ [']']))) := by
  have quote : '"' ∉ id.toList ++ ' ' :: '[' :: (cs ++ [']']) := by
    simp only [List.mem_append, List.mem_cons, not_or]
    exact ⟨fun h => absurd (word.chars _ h) (by decide), by decide, by decide, bare.not_mem (by decide), by decide, by simp⟩
  have noTitle : titledGroup.whole? (id.toList ++ ' ' :: '[' :: (cs ++ [']'])) = none :=
    Reader.whole?_of_refuses (refuses_titledGroup_of_tab word bare tab)
  have noId : Reader.identifier.whole? (id.toList ++ ' ' :: '[' :: (cs ++ [']'])) = none :=
    Reader.whole?_of_rest (Reader.reads_identifier word (by simp; decide)) (by simp)
  rw [groupHeader, if_neg (by simp), noTitle, noId, stripQuotes_eq_self quote, underscored]

/-! ### Every label -/

theorem tab_of_not_keeps (lost : ¬ Keeps text) : IsBare (Text.oneLine text).toList ∧ '\t' ∈ (Text.oneLine text).toList ∧
    labelText text = Text.oneLine text := by
  rw [Keeps, not_or, Decidable.not_not] at lost
  obtain ⟨bare, written, -⟩ | ⟨quotes, -, -⟩ := labelText_cases text
  · refine ⟨bare, ?_, written⟩
    rw [Text.toList_oneLine]
    exact Text.mem_singleLine (by decide) lost.2
  · exact absurd quotes lost.1

/-- The title that is read of a group when its label cannot be: all that is printed behind the keyword. -/
def strayTitle (e : Element) : String := e.id ++ " [" ++ Text.oneLine e.label ++ "]"

/-- A node and a group are read back from the lines that are printed for them, with their id, their
shape and their label on one line, unless the label stands bare with a tab. A node is then lost,
and a group gets another id and another label. -/
theorem ofText?_printed_element (word : IsWord e.id) (noEntity : ¬ Text.quoteEntity <:+: e.label.toList) :
    Statement.ofText? (nodeText e).toList = (if Keeps e.label then
        some (.node ⟨e.id, some (Text.oneLine e.label, shapeOf e), none⟩) else none) ∧
      Statement.ofText? (groupText e).toList = some (if Keeps e.label then
        .subgraph e.id (Text.oneLine e.label) else .subgraph (underscored (strayTitle e).toList) (strayTitle e)) := by
  by_cases keeps : Keeps e.label
  · rw [if_pos keeps, if_pos keeps, ← Text.requoted_eq_oneLine noEntity, ← carried_eq_requoted]
    exact ⟨(says_nodeText word keeps).ofText?, (says_groupText word keeps).ofText?⟩
  · obtain ⟨bare, tab, written⟩ := tab_of_not_keeps keeps
    rw [if_neg keeps, if_neg keeps]
    constructor
    · rw [Statement.ofText?, (isPiece_nodeText word).tight, toList_nodeText, written]
      exact Reader.whole?_of_refuses (refuses_statement_of_tab word _ bare tab)
    · have header : Text.trim (strayTitle e).toList = (strayTitle e).toList := by
        simpa [strayTitle] using trim_header word (' ' :: '[' :: (Text.oneLine e.label).toList)
      have split : (strayTitle e).toList = e.id.toList ++ ' ' :: '[' :: ((Text.oneLine e.label).toList ++ [']']) := by
        simp [strayTitle]
      have taken := reads_opener (by rw [split]; exact word.stops _) header
      rw [split, groupHeader_of_tab word bare tab, ← split, String.ofList_toList] at taken
      rw [Statement.ofText?, (isPiece_groupText word).tight, toList_groupText, written, ← split]
      exact Reader.whole?_of_reads taken.orElse

/-- A keyword for an id, slanted brackets, and a tab between quotes. -/
def bracketSample : Element :=
  (Element.node .epoch "end" "a\t\"b\"\r\nc").setProperty Element.shapeKey (.str Shape.trapezoid.key)

theorem ofText?_printed_element_sample :
    Statement.ofText? (nodeText bracketSample).toList = some (.node ⟨"end", some ("a\t\"b\" c", .trapezoid), none⟩) ∧
      Statement.ofText? (groupText bracketSample).toList = some (.subgraph "end" "a\t\"b\" c") := by
  have keeps : Keeps bracketSample.label := by decide +kernel
  have line : Text.oneLine bracketSample.label = "a\t\"b\" c" := by decide +kernel
  have shape : shapeOf bracketSample = .trapezoid := by decide +kernel
  have read := @ofText?_printed_element bracketSample (by decide +kernel) (by decide +kernel)
  rwa [if_pos keeps, if_pos keeps, line, shape] at read

/-- A tab puts no label in quotes, and ends one that has none. -/
theorem ofText?_printed_tab : nodeText (Element.node .epoch "A" "a\tb") = "A[a\tb]" ∧
    Statement.ofText? (nodeText (Element.node .epoch "A" "a\tb")).toList = none := by
  decide +kernel

end DiagramText.Flowchart
