import DiagramText.Proofs.Flowchart.Line
import DiagramText.Proofs.Reader.Excerpts
import DiagramText.Proofs.Reader.Repetition

/-! Nodes and links cut out of a line. What is read as a node or a link in a line is read as the same when
the line ends there. Either starts and ends in a way that no other statement goes on. -/
namespace DiagramText.Flowchart

open Reader (Reads Stops Follows Consumes Extends Persists Restricts)
open Text (EndsSolid IsWord)

variable {cs rest : List Char} {ref : NodeRef} {l : Link}

/-! ### Nodes -/

theorem restricts_label (ends : Char → Bool) : Restricts (label ends) :=
  Reader.restricts_quoted.orElse Reader.extends_quoted.persists
    ((Reader.restricts_run1 _).bind fun cs => Reader.restricts_pure (String.ofList (Text.trim cs)))

section Shaped

variable (s : Shape)

/-- What comes after a label: the brackets that close it. -/
def closed (text : String) : Reader (String × Shape) := do
  Reader.token s.closing
  pure (text, s)

theorem restricts_shaped : Restricts (shaped s) :=
  (Reader.restricts_token s.opening).bind fun _ => (restricts_label s.ends).bind fun text =>
    (Reader.restricts_token s.closing).bind fun _ => Reader.restricts_pure (text, s)

theorem quote_ends : s.ends '"' := by cases s <;> decide

/-- A label that is closed is closed at the same place when more follows. -/
theorem extends_labelled : Extends (label s.ends >>= closed s) := by
  intro cs p rest more taken
  obtain ⟨text, mid, inside, after⟩ := Reader.bind_eq_some taken
  have closes : Extends (closed s text) :=
    (Reader.extends_token s.closing).bind fun _ => Reader.extends_pure (text, s)
  refine Reads.bind ?_ (closes mid p rest more after)
  rcases Reader.orElse_eq_some inside with quoted | bare
  · exact Reads.orElse (Reader.extends_quoted cs text mid more quoted)
  · obtain ⟨taken, left, run, made⟩ := Reader.bind_eq_some bare
    obtain ⟨rfl, rfl⟩ := Reader.pure_eq_some made
    obtain ⟨split, some, all⟩ := Reader.run1_eq_some run
    -- The bracket ends the label, and a label that is bare does not start with a quote.
    have stops : Stops (fun c => !s.ends c) (left ++ more) := by
      obtain ⟨_, last, token, -⟩ := Reader.bind_eq_some after
      obtain ⟨c, cs, closing, ends⟩ := s.closing_ends
      rw [Reader.token_eq_some token, closing, List.cons_append, List.cons_append, Reader.stops_cons, ends]
      rfl
    have noQuote : ¬ ['"'] <+: cs ++ more := by
      cases taken with
      | nil => exact absurd rfl some
      | cons c taken =>
        rw [split]
        intro quote
        obtain ⟨rfl, -⟩ := List.cons_prefix_cons.1 quote
        have inside := all _ (List.mem_cons_self ..)
        rw [quote_ends] at inside
        cases inside
    have longer := Reader.reads_run1 some all stops
    rw [← List.append_assoc, ← split] at longer
    exact (Reader.refuses_quoted noQuote).orElse (longer.bind (Reads.pure _ _))

theorem extends_shaped : Extends (shaped s) := (Reader.extends_token s.opening).bind fun _ => extends_labelled s

theorem shaped_eq_some {p : String × Shape} (taken : shaped s cs = some (p, rest)) :
    ∃ inside, cs = s.opening.toList ++ (inside ++ (s.closing.toList ++ rest)) := by
  obtain ⟨_, mid, opening, labelled⟩ := Reader.bind_eq_some taken
  obtain ⟨text, left, inside, after⟩ := Reader.bind_eq_some labelled
  obtain ⟨_, last, closing, made⟩ := Reader.bind_eq_some after
  obtain ⟨-, rfl⟩ := Reader.pure_eq_some made
  obtain ⟨between, rfl⟩ := (restricts_label _).leaves _ _ _ inside
  exact ⟨between, by rw [Reader.token_eq_some opening, ← Reader.token_eq_some closing]⟩

end Shaped

/-- The brackets of a node with its label. -/
abbrev body : Reader (String × Shape) := Reader.firstOf (Shape.all.map shaped)

/-- The name of a class behind its mark. -/
abbrev styleClass : Reader String := Reader.token ":::" *> Reader.identifier

theorem persists_body : Persists body := by
  refine Reader.persists_firstOf ?_
  rw [List.forall_mem_map]
  exact fun s _ => (extends_shaped s).persists

theorem restricts_body : Restricts body := by
  refine Reader.restricts_firstOf ?_
  rw [List.forall_mem_map]
  exact fun s _ => ⟨restricts_shaped s, (extends_shaped s).persists⟩

theorem restricts_styleClass : Restricts (optional styleClass) :=
  ((Reader.restricts_token ":::").seqRight Reader.restricts_identifier).optional
    ((Reader.extends_token ":::").seqRight_persists Reader.persists_identifier)

theorem restricts_nodeRef : Restricts nodeRef :=
  Reader.restricts_identifier.bind fun _ => (restricts_body.optional persists_body).bind fun _ =>
    restricts_styleClass.bind fun _ => Reader.restricts_pure _

/-- What stands behind the id of a mention: brackets, a class, both or nothing. -/
structure IsDetail (cs : List Char) : Prop where
  first : ∀ c ∈ cs.head?, c ∈ ['[', '(', '\x7b', '>', ':']
  solid : EndsSolid cs

theorem isDetail_nil : IsDetail [] := ⟨by simp, by simp [EndsSolid]⟩

theorem body_eq_some {p : String × Shape} (taken : body cs = some (p, rest)) :
    ∃ detail, cs = detail ++ rest ∧ IsDetail detail := by
  obtain ⟨r, there, read⟩ := Reader.firstOf_eq_some taken
  obtain ⟨s, -, rfl⟩ := List.mem_map.1 there
  obtain ⟨inside, split⟩ := shaped_eq_some s read
  refine ⟨s.opening.toList ++ (inside ++ s.closing.toList), by simpa using split, ?_, ?_⟩
  · obtain ⟨c, cs, opening, bracket⟩ := s.opening_first
    rw [opening]
    have among : ['[', '(', '\x7b', '>'] ⊆ ['[', '(', '\x7b', '>', ':'] := by decide
    simpa using among bracket
  · rw [← List.append_assoc]
    exact (closing_last s).2.append_of_ne_nil (closing_last s).1 _

theorem styleClass_eq_some {name : String} (taken : styleClass cs = some (name, rest)) :
    ∃ detail, cs = detail ++ rest ∧ IsDetail detail := by
  rw [styleClass, seqRight_eq_bind] at taken
  obtain ⟨_, mid, mark, named⟩ := Reader.bind_eq_some taken
  obtain ⟨rfl, word⟩ := Reader.identifier_eq_some named
  refine ⟨":::".toList ++ name.toList, by rw [Reader.token_eq_some mark, List.append_assoc], ?_, ?_⟩
  · simp
  · exact word.endsSolid.append_of_ne_nil word.some _

/-- A mention is an id and what stands behind it. -/
theorem nodeRef_eq_some (taken : nodeRef cs = some (ref, rest)) :
    IsWord ref.id ∧ ∃ detail, cs = ref.id.toList ++ (detail ++ rest) ∧ IsDetail detail := by
  obtain ⟨id, behind, named, described⟩ := Reader.bind_eq_some taken
  obtain ⟨b, last, bracketed, classed⟩ := Reader.bind_eq_some described
  obtain ⟨name, left, marked, made⟩ := Reader.bind_eq_some classed
  obtain ⟨rfl, rfl⟩ := Reader.pure_eq_some made
  obtain ⟨rfl, word⟩ := Reader.identifier_eq_some named
  have brackets : ∃ detail, behind = detail ++ last ∧ IsDetail detail := by
    rcases Reader.optional_eq_some bracketed with ⟨p, -, there⟩ | ⟨-, rfl⟩
    · exact body_eq_some there
    · exact ⟨[], rfl, isDetail_nil⟩
  have mark : ∃ detail, last = detail ++ left ∧ IsDetail detail := by
    rcases Reader.optional_eq_some marked with ⟨s, -, there⟩ | ⟨-, rfl⟩
    · exact styleClass_eq_some there
    · exact ⟨[], rfl, isDetail_nil⟩
  obtain ⟨brackets, rfl, one⟩ := brackets
  obtain ⟨mark, rfl, two⟩ := mark
  refine ⟨word, brackets ++ mark, by rw [List.append_assoc], ?_, one.solid.append two.solid⟩
  cases brackets with
  | nil => exact two.first
  | cons c brackets => exact one.first

theorem IsDetail.follows {detail : List Char} (isDetail : IsDetail detail) (follows : Follows rest) :
    Follows (detail ++ rest) := by
  cases detail with
  | nil => exact follows
  | cons c detail =>
    have marks : ∀ c ∈ ['[', '(', '\x7b', '>', ':'], Text.isWordChar c = false ∧ Text.isInlineBlank c = false :=
      Text.forall_mem_of_all rfl
    obtain ⟨noWord, noBlank⟩ := marks c (isDetail.first c rfl)
    refine ⟨List.cons_ne_nil _ _, (Reader.stops_cons ..).2 noWord, ?_⟩
    rw [List.cons_append, List.dropWhile_cons_of_neg (by simp [noBlank]), Reader.stops_cons]
    exact noWord

/-! ### Links -/

theorem restricts_edgeLabel : Restricts edgeLabel :=
  (Reader.restricts_token "|").bind fun _ =>
    (Reader.restricts_quoted.orElse Reader.extends_quoted.persists
        ((Reader.restricts_run1 (· != '|')).map String.ofList)).bind fun text =>
      (Reader.restricts_token "|").bind fun _ => Reader.restricts_pure (Text.trimmed text)

/-- A link is read by itself as before others. Its label is the one part that may be read otherwise when
the text is longer, up to a bar that comes later; but where it is not read, there is the target. -/
theorem restricts_link : Restricts link := by
  refine Reader.restricts_inlineBlanks.bind fun _ => (Reader.restricts_oneOf _).bind fun arrow =>
    Reader.restricts_inlineBlanks.bind fun _ =>
      Reader.restricts_optional_bind (restricts_edgeLabel.seqLeft Reader.restricts_inlineBlanks)
        (fun label => restricts_nodeRef.bind fun target =>
          Reader.restricts_pure (Link.mk arrow (label.bind Reader.nonEmpty) target)) ?_
  intro cs l rest more taken
  obtain ⟨ref, mid, mention, made⟩ := Reader.bind_eq_some taken
  obtain ⟨-, rfl⟩ := Reader.pure_eq_some made
  obtain ⟨word, detail, split, -⟩ := nodeRef_eq_some mention
  rw [← List.append_assoc, ← List.append_assoc] at split
  rw [List.append_cancel_right split, List.append_assoc]
  exact refuses_edgeLabel word _

/-- A link starts with blanks and its arrow, and ends with the mention of its target. -/
theorem link_eq_some (taken : link cs = some (l, rest)) :
    (∃ bs mid, (∀ c ∈ bs, Text.isInlineBlank c) ∧ cs = bs ++ (l.arrow.token.toList ++ mid)) ∧
      ∃ before mid, cs = before ++ mid ∧ nodeRef mid = some (l.target, rest) := by
  obtain ⟨_, arrowed, gap, taken⟩ := Reader.bind_eq_some taken
  obtain ⟨arrow, spaced, sign, taken⟩ := Reader.bind_eq_some taken
  obtain ⟨_, labelled, space, taken⟩ := Reader.bind_eq_some taken
  obtain ⟨label, aimed, barred, taken⟩ := Reader.bind_eq_some taken
  obtain ⟨target, left, mention, made⟩ := Reader.bind_eq_some taken
  obtain ⟨rfl, rfl⟩ := Reader.pure_eq_some made
  constructor
  · obtain ⟨bs, rfl, blank⟩ := Reader.inlineBlanks_eq_some gap
    obtain ⟨p, there, same, rfl⟩ := Reader.oneOf_eq_some sign
    obtain ⟨a, -, rfl⟩ := List.mem_map.1 there
    exact ⟨bs, spaced, blank, by rw [← same]⟩
  · have barred := (restricts_edgeLabel.seqLeft Reader.restricts_inlineBlanks).leaves.optional _ _ _ barred
    have suffix := barred.trans ((Reader.leaves_inlineBlanks _ _ _ space).trans
      ((Reader.leaves_oneOf _ _ _ _ sign).trans (Reader.leaves_inlineBlanks _ _ _ gap)))
    obtain ⟨before, split⟩ := suffix
    exact ⟨before, aimed, split.symm, mention⟩

theorem consumes_link : Consumes link := by
  have tokens : ∀ p ∈ Arrow.all.map fun a => (a.token, a), p.1.toList ≠ [] := by decide
  exact Reader.leaves_inlineBlanks.bind_consumes fun _ => (Reader.consumes_oneOf tokens).bind fun arrow =>
    Reader.leaves_inlineBlanks.bind fun _ =>
      (restricts_edgeLabel.seqLeft Reader.restricts_inlineBlanks).leaves.optional.bind fun label =>
        restricts_nodeRef.leaves.bind fun target =>
          Reader.leaves_pure (Link.mk arrow (label.bind Reader.nonEmpty) target)

/-- Blanks before a link make no difference. -/
theorem link_blanks {bs : List Char} (blank : ∀ c ∈ bs, Text.isInlineBlank c) (cs : List Char) :
    link (bs ++ cs) = link cs := by
  have same : Reader.inlineBlanks (bs ++ cs) = Reader.inlineBlanks cs := by
    show some ((), (bs ++ cs).dropWhile Text.isInlineBlank) = some ((), cs.dropWhile Text.isInlineBlank)
    rw [List.dropWhile_append_of_pos blank]
  exact Reader.bind_congr same _

theorem follows_of_link (taken : link cs = some (l, rest)) : Follows cs := by
  obtain ⟨⟨bs, mid, blank, rfl⟩, -⟩ := link_eq_some taken
  exact follows_arrow_blanks blank l.arrow mid

theorem endsSolid_of_link (taken : link cs = some (l, [])) : cs ≠ [] ∧ EndsSolid cs := by
  obtain ⟨-, before, mid, rfl, mention⟩ := link_eq_some taken
  obtain ⟨word, detail, rfl, isDetail⟩ := nodeRef_eq_some mention
  rw [List.append_nil]
  have some : l.target.id.toList ++ detail ≠ [] := List.append_ne_nil_of_left_ne_nil word.some detail
  exact ⟨List.append_ne_nil_of_right_ne_nil before some,
    (word.endsSolid.append isDetail.solid).append_of_ne_nil some before⟩

/-- Before a link an id is a mention without a body. -/
theorem reads_nodeRef_link {id : String} (word : IsWord id) (taken : link cs = some (l, rest)) :
    Reads nodeRef (id.toList ++ cs) ⟨id, none, none⟩ cs := by
  have first : ∀ c ∈ cs.head?, c ∈ [' ', '\t', '-', '=', '~'] := by
    obtain ⟨⟨bs, mid, blank, rfl⟩, -⟩ := link_eq_some taken
    intro c first
    cases bs with
    | nil =>
      obtain ⟨d, cs, token, sign⟩ := l.arrow.token_first
      rw [token] at first
      obtain rfl := Option.some.inj first
      exact List.mem_cons_of_mem _ (List.mem_cons_of_mem _ sign)
    | cons b bs =>
      obtain rfl := Option.some.inj first
      have space := blank b (List.mem_cons_self ..)
      simp only [Text.isInlineBlank, Bool.or_eq_true, beq_iff_eq] at space
      rcases space with rfl | rfl <;> decide
  have apart : ∀ c ∈ [' ', '\t', '-', '=', '~'], c ∉ ['[', '(', '\x7b', '>'] ∧ c ≠ ':' :=
    Text.forall_mem_of_all rfl
  exact reads_nodeRef_alone word (follows_of_link taken).stops (refuses_body fun c there => (apart c (first c there)).1)
    fun c there => (apart c (first c there)).2

end DiagramText.Flowchart
