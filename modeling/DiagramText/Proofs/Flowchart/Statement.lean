import DiagramText.Proofs.Flowchart.Label
import DiagramText.Proofs.Reader.Keywords

/-! Printed flowchart statements read back. Each alternative of the grammar that comes before the
right one has to refuse the line: a bracket that another one starts, an arrow that another one
starts, or a keyword at the front of an id. -/
namespace DiagramText.Flowchart

open Reader (Reads Refuses Stops Follows)
open Text (IsWord)

variable {id source target text : String} {rest : List Char}

/-! ### Shapes -/

namespace Shape

theorem mem_all (s : Shape) : s ∈ all := by cases s <;> decide

/-- A shape that is tried earlier opens in another way, or in the same way and closes in another. -/
theorem earlier (s : Shape) : ∀ r ∈ all.takeWhile (· ≠ s),
    (r.opening = s.opening ∧ r.isSlanted = s.isSlanted ∧
      r.closing.toList.length = s.closing.toList.length ∧ r.closing.toList ≠ s.closing.toList) ∨
    (¬ r.opening.toList <+: s.opening.toList ∧
      (r.opening.toList.drop s.opening.toList.length).head?.all fun d => d != '"' && quoteTriggers.contains d) := by
  cases s <;> decide

/-- The characters that end a label in the brackets of a shape. -/
def ends (s : Shape) : Char → Bool := if s.isSlanted then endsSlantedLabel else endsLabel

theorem endsSlantedLabel_of_ends (s : Shape) : ∀ c, s.ends c → endsSlantedLabel c := by
  intro c h
  unfold ends at h
  split at h
  · exact h
  · simp [endsSlantedLabel, h]

theorem closing_ends (s : Shape) : ∃ c cs, s.closing.toList = c :: cs ∧ s.ends c := by
  cases s <;> exact ⟨_, _, rfl, by decide⟩

theorem opening_first (s : Shape) :
    ∃ c cs, s.opening.toList = c :: cs ∧ c ∈ ['[', '(', '\x7b', '>'] := by
  cases s <;> exact ⟨_, _, rfl, by decide⟩

end Shape

theorem reads_shapedLabel (s : Shape) (keeps : Keeps text) :
    Reads (label s.ends) ((labelText text).toList ++ (s.closing.toList ++ rest)) (carried text)
      (s.closing.toList ++ rest) := by
  obtain ⟨c, cs, closing, closes⟩ := s.closing_ends
  rw [closing, List.cons_append]
  exact reads_label s.endsSlantedLabel_of_ends keeps closes

theorem reads_shaped (s : Shape) (keeps : Keeps text) :
    Reads (shaped s) (s.opening.toList ++ ((labelText text).toList ++ (s.closing.toList ++ rest)))
      (carried text, s) rest :=
  (Reader.reads_token s.opening _).bind
    ((reads_shapedLabel s keeps).bind
      ((Reader.reads_token s.closing rest).bind (Reads.pure (carried text, s) rest)))

theorem refuses_shaped_earlier {r s : Shape} (before : r ∈ Shape.all.takeWhile (· ≠ s))
    (keeps : Keeps text) : Refuses (shaped r)
      (s.opening.toList ++ ((labelText text).toList ++ (s.closing.toList ++ rest))) := by
  rcases s.earlier r before with ⟨opening, slant, length, other⟩ | ⟨out, next⟩
  · unfold shaped
    rw [opening]
    have sameEnds : (if r.isSlanted then endsSlantedLabel else endsLabel) = s.ends := by
      rw [slant, Shape.ends]
    refine (Reader.reads_token s.opening _).refuses_bind ?_
    rw [sameEnds]
    refine (reads_shapedLabel s keeps).refuses_bind ?_
    refine Refuses.bind (Reader.refuses_token ?_) _
    intro closes
    have within := List.prefix_of_prefix_length_le closes (List.prefix_append _ rest) (Nat.le_of_eq length)
    exact other (within.eq_of_length length)
  · obtain ⟨c, cs, first, plain⟩ := labelText_first text
    rw [first, List.cons_append]
    refine Refuses.bind (Reader.refuses_token (Text.not_prefix_append out ?_)) _
    intro _ same
    rw [same] at next
    simp only [Option.all_some, Bool.and_eq_true, bne_iff_ne, List.contains_iff_mem] at next
    exact plain.elim next.1 fun free => free next.2

/-- The brackets of a shape are read back with the label between them. -/
theorem reads_body (s : Shape) (keeps : Keeps text) :
    Reads (Reader.firstOf (Shape.all.map shaped))
      (s.opening.toList ++ ((labelText text).toList ++ (s.closing.toList ++ rest))) (carried text, s) rest :=
  Reader.reads_firstOf_map s.mem_all (fun _ before => refuses_shaped_earlier before keeps)
    (reads_shaped s keeps)

/-! ### Nodes -/

theorem not_wordChar_of_bracket {c : Char} (h : c ∈ ['[', '(', '\x7b', '>']) :
    Text.isWordChar c = false := by
  have all : ∀ c ∈ ['[', '(', '\x7b', '>'], Text.isWordChar c = false := Text.forall_mem_of_all rfl
  exact all c h

theorem reads_nodeRef_body (word : IsWord id) (s : Shape) (keeps : Keeps text) :
    Reads nodeRef (id.toList ++ (s.opening.toList ++ ((labelText text).toList ++ s.closing.toList)))
      ⟨id, some (carried text, s), none⟩ [] := by
  have stops : Stops Text.isWordChar
      (s.opening.toList ++ ((labelText text).toList ++ s.closing.toList)) := by
    obtain ⟨c, cs, opening, bracket⟩ := s.opening_first
    rw [opening, List.cons_append, Reader.stops_cons]
    exact not_wordChar_of_bracket bracket
  have body := @reads_body text [] s keeps
  rw [List.append_nil] at body
  have noClass : Refuses (Reader.token ":::" *> Reader.identifier) [] :=
    (Reader.refuses_token (by decide)).seqRight _
  exact (Reader.reads_identifier word stops).bind
    (body.optional.bind (noClass.optional.bind (Reads.pure _ _)))

/-- No brackets are read where none opens. -/
theorem refuses_body (apart : ∀ c ∈ rest.head?, c ∉ ['[', '(', '\x7b', '>']) :
    Refuses (Reader.firstOf (Shape.all.map shaped)) rest := by
  apply Reader.refuses_firstOf
  intro _ h
  obtain ⟨s, -, rfl⟩ := List.mem_map.1 h
  refine Refuses.bind (Reader.refuses_token ?_) _
  obtain ⟨c, cs, opening, bracket⟩ := s.opening_first
  rw [opening]
  rintro ⟨more, rfl⟩
  exact apart c rfl bracket

/-- An id before anything that goes on with neither brackets nor a class is a mention without a body. -/
theorem reads_nodeRef_alone (word : IsWord id) (stops : Stops Text.isWordChar rest)
    (noBody : Refuses (Reader.firstOf (Shape.all.map shaped)) rest) (noClass : ∀ c ∈ rest.head?, c ≠ ':') :
    Reads nodeRef (id.toList ++ rest) ⟨id, none, none⟩ rest := by
  have noClass : Refuses (Reader.token ":::" *> Reader.identifier) rest := by
    refine (Reader.refuses_token ?_).seqRight _
    rintro ⟨more, rfl⟩
    exact noClass ':' rfl rfl
  exact (Reader.reads_identifier word stops).bind
    (noBody.optional.bind (noClass.optional.bind (Reads.pure _ _)))

/-- An id that a blank or nothing follows is a mention without a body. -/
theorem reads_nodeRef_bare (word : IsWord id) (blank : ∀ c ∈ rest.head?, c = ' ') :
    Reads nodeRef (id.toList ++ rest) ⟨id, none, none⟩ rest := by
  refine reads_nodeRef_alone word (fun c h => ?_) (refuses_body fun c h => ?_) fun c h => ?_
  · rw [blank c h]
    decide
  · rw [blank c h]
    decide
  · rw [blank c h]
    decide

/-! ### Arrows and links -/

namespace Arrow

theorem mem_all (a : Arrow) : a ∈ all := by cases a <;> decide

/-- An arrow that is tried earlier starts in another way, or goes on with more than a blank. -/
theorem earlier (a : Arrow) : ∀ b ∈ all.takeWhile (· ≠ a), ¬ b.token.toList <+: a.token.toList ∧
    (b.token.toList.drop a.token.toList.length).head? ≠ some ' ' ∧
    (b.token.toList.drop a.token.toList.length).head? ≠ some '|' := by
  cases a <;> decide

theorem token_first (a : Arrow) : ∃ c cs, a.token.toList = c :: cs ∧ c ∈ ['-', '=', '~'] := by
  cases a <;> exact ⟨_, _, rfl, by decide⟩

end Arrow

theorem reads_arrow (a : Arrow) {c : Char} (next : c = ' ' ∨ c = '|') :
    Reads Arrow.reader (a.token.toList ++ c :: rest) a (c :: rest) := by
  refine Reader.reads_oneOf_map a.mem_all fun b before => ?_
  obtain ⟨out, noBlank, noBar⟩ := a.earlier b before
  apply Text.not_prefix_append out
  rcases next with rfl | rfl
  · exact fun _ => noBlank
  · exact fun _ => noBar

/-- Between bars a tab does no harm. -/
theorem reads_barredText (text : String) :
    Reads (Reader.quoted <|> (String.ofList <$> Reader.run1 (· != '|')))
      ((labelText text).toList ++ '|' :: rest) (carried text) ('|' :: rest) := by
  obtain ⟨bare, written, read⟩ | ⟨-, written, read⟩ := labelText_cases text
  · rw [written, read]
    have all : ∀ d ∈ (Text.oneLine text).toList, d != '|' := by
      intro d h
      rw [bne_iff_ne]
      rintro rfl
      exact bare.free _ h (by decide)
    have stops : Stops (· != '|') ('|' :: rest) := by simp
    have taken := (Reader.reads_run1 bare.some all stops).map String.ofList
    rw [String.ofList_toList] at taken
    exact (Reader.refuses_quoted bare.not_quote).orElse taken
  · rw [written, read]
    exact (Text.reads_quoted text _).orElse

theorem reads_edgeLabel (text : String) : Reads edgeLabel ('|' :: ((labelText text).toList ++ '|' :: rest))
    (Text.trimmed (carried text)) rest := by
  have bar (cs : List Char) : Reads (Reader.token "|") ('|' :: cs) () cs :=
    Reader.reads_token_char rfl cs
  exact (bar _).bind ((reads_barredText text).bind ((bar rest).bind (Reads.pure _ rest)))

theorem stops_word (word : IsWord id) : Stops Text.isInlineBlank id.toList := by
  have := word.stops []
  rwa [List.append_nil] at this

theorem refuses_edgeLabel (word : IsWord id) (rest : List Char) :
    Refuses (edgeLabel <* Reader.inlineBlanks) (id.toList ++ rest) := by
  obtain ⟨c, cs, split, first⟩ := word.first rest
  rw [seqLeft_eq_bind, split]
  refine Refuses.bind (Refuses.bind (Reader.refuses_token fun bar => ?_) _) _
  obtain ⟨rfl, -⟩ := List.cons_prefix_cons.1 bar
  exact absurd first (by decide)

theorem stops_token (a : Arrow) (rest : List Char) :
    Stops Text.isInlineBlank (a.token.toList ++ rest) := by
  obtain ⟨c, cs, token, sign⟩ := a.token_first
  have signs : ∀ c ∈ ['-', '=', '~'], Text.isInlineBlank c = false := Text.forall_mem_of_all rfl
  rw [token, List.cons_append, Reader.stops_cons]
  exact signs c sign

theorem reads_target (word : IsWord id) : Reads nodeRef id.toList ⟨id, none, none⟩ [] := by
  have taken := @reads_nodeRef_bare id [] word (by simp)
  rwa [List.append_nil] at taken

theorem reads_link_plain (a : Arrow) (word : IsWord target) :
    Reads link (' ' :: (a.token.toList ++ ' ' :: target.toList)) ⟨a, none, ⟨target, none, none⟩⟩ [] := by
  have noLabel := refuses_edgeLabel word []
  rw [List.append_nil] at noLabel
  exact (Reader.reads_space (stops_token a _)).bind
    ((reads_arrow a (.inl rfl)).bind
      ((Reader.reads_space (stops_word word)).bind
        (noLabel.optional.bind ((reads_target word).bind (Reads.pure _ [])))))

theorem reads_link_labelled (a : Arrow) (text : String) (word : IsWord target) :
    Reads link (' ' :: (a.token.toList ++ '|' :: ((labelText text).toList ++ '|' :: ' ' :: target.toList)))
      ⟨a, Reader.nonEmpty (Text.trimmed (carried text)), ⟨target, none, none⟩⟩ [] := by
  have label : Reads (edgeLabel <* Reader.inlineBlanks)
      ('|' :: ((labelText text).toList ++ '|' :: ' ' :: target.toList)) (Text.trimmed (carried text))
      target.toList := (reads_edgeLabel text).seqLeft (Reader.reads_space (stops_word word))
  exact (Reader.reads_space (stops_token a _)).bind
    ((reads_arrow a (.inr rfl)).bind
      ((Reader.reads_noBlanks (by simp; decide)).bind
        (label.optional.bind ((reads_target word).bind (Reads.pure _ [])))))

theorem reads_chain {l : Link} (word : IsWord source) (blank : ∀ c ∈ rest.head?, c = ' ')
    (linked : Reads link rest l []) :
    Reads chain (source.toList ++ rest) (.chain ⟨source, none, none⟩ [l]) [] :=
  (reads_nodeRef_bare word blank).bind
    ((Reader.reads_many1 linked).bind (Reader.reads_atEnd.bind (Reads.pure _ [])))

/-! ### Keywords -/

/-- The keyword opens no subgraph if more follows it at once. -/
theorem refuses_subgraph (word : IsWord id) (follows : Follows rest)
    (apart : id = "subgraph" → Stops Text.isInlineBlank rest) : Refuses subgraph (id.toList ++ rest) := by
  have noHeader {next : Option (List Char) → Unit → Reader Statement} {cs : List Char} (some : cs ≠ [])
      (stops : Stops Text.isInlineBlank cs) : Refuses
        (optional (Reader.inlineBlanks1 *> Reader.rest) >>= fun header => Reader.atEnd >>= next header) cs :=
    ((Reader.refuses_inlineBlanks1 stops).seqRight _).optional.refuses_bind
      (Refuses.bind (Reader.refuses_atEnd some) _)
  refine Reader.refuses_token_bind (by decide) word follows.stops (fun same => ?_) fun c cs first => ?_
  · exact noHeader follows.some (apart same)
  · exact noHeader (List.cons_ne_nil c cs) (by simp [Text.isInlineBlank_eq_false_of_isWordChar first])

theorem refuses_close (word : IsWord id) (follows : Follows rest) :
    Refuses (Reader.token "end" *> Reader.atEnd *> pure Statement.close) (id.toList ++ rest) := by
  apply Refuses.seqRight
  rw [seqRight_eq_bind]
  exact Reader.refuses_token_bind (by decide) word follows.stops (fun _ => Reader.refuses_atEnd follows.some)
    fun c cs _ => Reader.refuses_atEnd (List.cons_ne_nil c cs)

theorem refuses_style (word : IsWord id) (follows : Follows rest) :
    Refuses style (id.toList ++ rest) := by
  refine Reader.refuses_token_bind (by decide) word follows.stops (fun _ => ?_)
    fun c cs first => Reader.refuses_blanksAtWord first
  exact Reader.refuses_afterBlanks follows fun gap =>
    Refuses.bind (Refuses.bind (Reader.refuses_identifier gap) _) _

theorem refuses_directionLine (word : IsWord id) (follows : Follows rest) :
    Refuses directionLine (id.toList ++ rest) := by
  refine Reader.refuses_token_bind (by decide) word follows.stops (fun _ => ?_)
    fun c cs first => Reader.refuses_blanksAtWord first
  have names : ∀ p ∈ Direction.names, p.1.toList ≠ [] ∧ p.1.toList.all Text.isWordChar := by
    decide
  refine Reader.refuses_afterBlanks follows fun gap => Refuses.bind (Reader.refuses_oneOf ?_) _
  intro p h starts
  obtain ⟨some, plain⟩ := names p h
  have none : p.1.toList <+: [] := Reader.prefix_of_stops (List.all_eq_true.1 plain) gap starts
  exact some (List.prefix_nil.1 none)

theorem reads_statement_chain {s : Statement} (word : IsWord id) (follows : Follows rest)
    (noGroup : Refuses subgraph (id.toList ++ rest)) (read : Reads chain (id.toList ++ rest) s []) :
    Reads statement (id.toList ++ rest) s [] :=
  noGroup.orElse ((refuses_close word follows).orElse ((refuses_style word follows).orElse
    ((refuses_directionLine word follows).orElse read.orElse)))

theorem reads_statement_node {ref : NodeRef} (word : IsWord id) (follows : Follows rest)
    (apart : Stops Text.isInlineBlank rest) (read : Reads nodeRef (id.toList ++ rest) ref []) :
    Reads statement (id.toList ++ rest) (.node ref) [] := by
  have noChain : Refuses chain (id.toList ++ rest) := by
    have noArrow : Refuses Arrow.reader [] := Reader.refuses_oneOf (by decide)
    have noLink : Refuses link [] := (Reader.reads_noBlanks (by simp)).refuses_bind (noArrow.bind _)
    exact read.refuses_bind (Refuses.bind (Refuses.bind noLink _) _)
  exact (refuses_subgraph word follows fun _ => apart).orElse ((refuses_close word follows).orElse
    ((refuses_style word follows).orElse ((refuses_directionLine word follows).orElse
      (noChain.orElse (Reads.orElse (read.bind (Reader.reads_atEnd.bind (Reads.pure _ []))))))))

end DiagramText.Flowchart
