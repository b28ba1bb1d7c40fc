import DiagramText.Classes.Printer
import DiagramText.Proofs.Classes.Pointing
import DiagramText.Proofs.Graph.Building
import DiagramText.Proofs.Line

/-! The lines of class source. What is printed of a class, a member or a relation is read back as
what it was printed from: heads and relations as statements, members inside the braces of a body. -/
namespace DiagramText.Classes

open Reader (Reads Refuses Stops)
open Text (EndsSolid IsWord IsQuotable)

/-! ### Members -/

/-- A text that can stand on a line of a body, which no closing brace may end early. -/
structure IsBodyText (s : String) : Prop where
  filled : s ≠ ""
  tight : Text.trimmed s = s
  brace : '\x7d' ∉ s.toList
  cr : '\r' ∉ s.toList
  lf : '\n' ∉ s.toList

instance (s : String) : Decidable (IsBodyText s) :=
  decidable_of_iff (s ≠ "" ∧ Text.trimmed s = s ∧ '\x7d' ∉ s.toList ∧ '\r' ∉ s.toList ∧ '\n' ∉ s.toList)
    ⟨fun ⟨f, t, b, cr, lf⟩ => ⟨f, t, b, cr, lf⟩, fun h => ⟨h.filled, h.tight, h.brace, h.cr, h.lf⟩⟩

/-- A text that is neither a comment nor a stereotype. -/
structure IsUnmarked (s : String) : Prop where
  noComment : ¬ Source.commentMark <+: s.toList
  noStereotype : ∀ inner, s.toList ≠ ['<', '<'] ++ inner ++ ['>', '>']

theorem between?_eq_some_iff {start stop cs inner : List Char} :
    between? start stop cs = some inner ↔ cs = start ++ inner ++ stop := by
  simp only [between?, bind, pure, Option.bind_eq_some_iff, List.isPrefixOf?_eq_some_iff_append_eq,
    Option.some.injEq]
  constructor
  · rintro ⟨rest, rfl, back, split, rfl⟩
    rw [eq_comm, List.reverse_eq_append_iff, List.reverse_reverse] at split
    rw [split, List.append_assoc]
  · rintro rfl
    exact ⟨inner ++ stop, (List.append_assoc ..).symm, inner.reverse, List.reverse_append.symm, by simp⟩

theorem between?_of_isUnmarked {s : String} (unmarked : IsUnmarked s) :
    between? ['<', '<'] ['>', '>'] s.toList = none :=
  Option.eq_none_iff_forall_ne_some.2 fun inner found =>
    unmarked.noStereotype inner (between?_eq_some_iff.1 found)

instance (s : String) : Decidable (IsUnmarked s) :=
  decidable_of_iff (¬ Source.commentMark <+: s.toList ∧ between? ['<', '<'] ['>', '>'] s.toList = none)
    ⟨fun ⟨c, n⟩ => ⟨c, fun inner same => by rw [between?_eq_some_iff.2 same] at n; cases n⟩,
      fun h => ⟨h.noComment, between?_of_isUnmarked h⟩⟩

namespace Member

/-- A member that is read back as it is. -/
def IsTextual : Member → Prop
  | .attribute s => IsBodyText s ∧ IsUnmarked s ∧ '(' ∉ s.toList
  | .method s => IsBodyText s ∧ IsUnmarked s ∧ '(' ∈ s.toList
  | .stereotype s => IsBodyText s

instance : (m : Member) → Decidable m.IsTextual
  | .attribute s => inferInstanceAs (Decidable (IsBodyText s ∧ IsUnmarked s ∧ '(' ∉ s.toList))
  | .method s => inferInstanceAs (Decidable (IsBodyText s ∧ IsUnmarked s ∧ '(' ∈ s.toList))
  | .stereotype s => inferInstanceAs (Decidable (IsBodyText s))

/-- The line of a body without its indentation. -/
def text : Member → String
  | .attribute s => Text.oneLine s
  | .method s => Text.oneLine s
  | .stereotype s => "<<" ++ Text.oneLine s ++ ">>"

end Member

/-- A line that adds a member to the class whose body is open. -/
structure Adds (line : String) (m : Member) : Prop where
  statement : Source.IsStatement line.toList
  brace : '\x7d' ∉ line.toList
  reads : Member.ofText? (Text.trim line.toList) = some m

variable {s : String} {m : Member}

theorem IsBodyText.toList_ne_nil (body : IsBodyText s) : s.toList ≠ [] :=
  fun none => body.filled (String.toList_eq_nil_iff.1 none)

theorem IsBodyText.adds (body : IsBodyText s) (unmarked : IsUnmarked s)
    (reads : Member.ofText? s.toList = some m) : Adds s m := by
  have tight := Text.trim_of_trimmed body.tight
  refine ⟨⟨body.lf, ?_, ?_⟩, body.brace, ?_⟩ <;> rw [tight]
  · exact body.toList_ne_nil
  · exact unmarked.noComment
  · exact reads

theorem ofText?_unmarked (body : IsBodyText s) (unmarked : IsUnmarked s) :
    Member.ofText? s.toList =
      if s.toList.contains '(' then some (.method s) else some (.attribute s) := by
  unfold Member.ofText?
  simp only [Text.trim_of_trimmed body.tight, if_neg body.toList_ne_nil, between?_of_isUnmarked unmarked,
    String.ofList_toList]

theorem adds_stereotype (body : IsBodyText s) :
    Adds ("<<" ++ s ++ ">>") (.stereotype s) := by
  have split : ("<<" ++ s ++ ">>").toList = '<' :: '<' :: (s.toList ++ ['>', '>']) := by simp
  have tight : Text.trim ('<' :: '<' :: (s.toList ++ ['>', '>'])) =
      '<' :: '<' :: (s.toList ++ ['>', '>']) :=
    Text.trim_cons_append '<' ('<' :: s.toList) (by decide) (by simp) (by decide)
  have inner : between? ['<', '<'] ['>', '>'] ('<' :: '<' :: (s.toList ++ ['>', '>'])) = some s.toList :=
    between?_eq_some_iff.2 rfl
  refine ⟨⟨?_, ?_, ?_⟩, ?_, ?_⟩ <;> rw [split]
  · simpa using body.lf
  · rw [tight]
    exact List.cons_ne_nil _ _
  · rw [tight]
    intro comment
    exact absurd (List.cons_prefix_cons.1 comment).1 (by decide)
  · simpa using body.brace
  · unfold Member.ofText?
    rw [tight]
    simp only [tight, inner, Text.trim_of_trimmed body.tight, String.ofList_toList]
    exact if_neg (List.cons_ne_nil _ _)

theorem Member.IsTextual.adds (textual : m.IsTextual) : Adds m.text m := by
  match m with
  | .attribute s =>
    obtain ⟨body, unmarked, none⟩ := textual
    rw [Member.text, Text.oneLine_eq_self body.cr body.lf]
    exact body.adds unmarked (by simp [ofText?_unmarked body unmarked, none])
  | .method s =>
    obtain ⟨body, unmarked, opened⟩ := textual
    rw [Member.text, Text.oneLine_eq_self body.cr body.lf]
    exact body.adds unmarked (by simp [ofText?_unmarked body unmarked, opened])
  | .stereotype s =>
    have body : IsBodyText s := textual
    rw [Member.text, Text.oneLine_eq_self body.cr body.lf]
    exact adds_stereotype body

/-! ### Statements -/

abbrev Says (line : String) (s : Statement) : Prop := Source.Says statement line s

variable {name source target label : String} {rest : List Char}

/-! ### Heads -/

/-- The label that the head of a class shows. -/
def shownLabel (e : Element) : Option String :=
  if e.label ≠ "" ∧ e.label ≠ e.id then some e.label else none

def labelChars : Option String → List Char
  | some label => '[' :: ((Text.quoted label).toList ++ [']'])
  | none => []

theorem toList_headText (e : Element) :
    (headText e).toList = "class".toList ++ ' ' :: (e.id.toList ++ labelChars (shownLabel e)) := by
  unfold headText shownLabel
  dsimp only
  split <;> simp [labelChars]

/-- What stands behind a head, and the body that it opens. -/
inductive Opening : List Char → Option String → Prop where
  | none : Opening [] none
  | brace (body : List Char) (solid : EndsSolid ('\x7b' :: body)) :
      Opening (' ' :: '\x7b' :: body) (some (String.ofList body))

theorem Opening.reads {tail : List Char} {body : Option String} (opening : Opening tail body) :
    Reads (optional openBody) tail body [] := by
  cases opening with
  | none =>
    have refused : Refuses openBody [] :=
      ((Reader.reads_noBlanks (by simp)).refuses_seqRight (Reader.refuses_token (by decide))).seqRight _
    exact refused.optional
  | brace body =>
    have blank : Reads Reader.inlineBlanks (' ' :: '\x7b' :: body) () ('\x7b' :: body) :=
      Reader.reads_space ((Reader.stops_cons _ '\x7b' body).2 (by decide))
    have brace : Reads (Reader.token "\x7b") ('\x7b' :: body) () body := Reader.reads_token_char rfl body
    exact ((blank.seqRight brace).seqRight ((Reader.reads_rest body).map String.ofList)).optional

theorem Opening.stops {tail : List Char} {body : Option String} (opening : Opening tail body)
    {p : Char → Bool} (space : p ' ' = false) : Stops p tail := by
  cases opening with
  | none => exact Reader.stops_nil p
  | brace => exact (Reader.stops_cons p ' ' _).2 space

theorem reads_bracketed {label : Option String} (quotable : ∀ l ∈ label, IsQuotable l)
    {tail : List Char} {body : Option String} (opening : Opening tail body) :
    Reads (optional bracketed) (labelChars label ++ tail) label tail := by
  cases label with
  | none =>
    have refused : Refuses bracketed tail := by
      have none : Refuses (Reader.token "[") tail := by cases opening <;> rfl
      rw [bracketed, seqLeft_eq_bind]
      exact (none.seqRight _).bind _
    exact refused.optional
  | some l =>
    have text := Text.reads_quoted l (']' :: tail)
    rw [(quotable l rfl).requoted] at text
    have bracket : Reads (Reader.token "[") ('[' :: ((Text.quoted l).toList ++ ']' :: tail)) ()
        ((Text.quoted l).toList ++ ']' :: tail) := Reader.reads_token_char rfl _
    have closing : Reads (Reader.token "]") (']' :: tail) () tail := Reader.reads_token_char rfl _
    have taken : Reads (optional bracketed) ('[' :: ((Text.quoted l).toList ++ ']' :: tail)) (some l) tail :=
      ((bracket.seqRight text).seqLeft closing).optional
    simpa [labelChars] using taken

/-- The head of a class, alone or with the brace that opens its body. -/
theorem reads_declare (word : IsWord name) {label : Option String}
    (quotable : ∀ l ∈ label, IsQuotable l) {tail : List Char} {body : Option String}
    (opening : Opening tail body) :
    Reads declare ("class".toList ++ ' ' :: (name.toList ++ (labelChars label ++ tail)))
      (.declare name label body) [] := by
  have ends : Stops Text.isWordChar (labelChars label ++ tail) := by
    cases label with
    | none => exact opening.stops (by decide)
    | some l => exact (Reader.stops_cons _ '[' _).2 (by decide)
  exact (Reader.reads_token "class" _).bind ((Reader.reads_space1 (word.stops _)).bind
    ((Reader.reads_identifier word ends).bind ((reads_bracketed quotable opening).bind
      (opening.reads.bind ((Reader.reads_noBlanks (by simp)).bind
        (Reader.reads_atEnd.bind (Reads.pure _ [])))))))

theorem trim_head (word : IsWord name) (label : Option String) {tail : List Char}
    {body : Option String} (opening : Opening tail body) :
    Text.trim ("class".toList ++ ' ' :: (name.toList ++ (labelChars label ++ tail))) =
      "class".toList ++ ' ' :: (name.toList ++ (labelChars label ++ tail)) := by
  have ended (before : List Char) {last : List Char} (some : last ≠ []) (solid : EndsSolid last) :
      Text.trim ('c' :: (before ++ last)) = 'c' :: (before ++ last) :=
    Text.trim_eq_self (by simp; decide) (solid.append_of_ne_nil some ('c' :: before))
  cases opening with
  | brace body solid =>
    have := ended ("lass ".toList ++ (name.toList ++ (labelChars label ++ [' ']))) (List.cons_ne_nil _ _) solid
    simpa using this
  | none =>
    cases label with
    | some l =>
      have bracket : EndsSolid [']'] := by decide
      have := ended ("lass ".toList ++ (name.toList ++ '[' :: (Text.quoted l).toList)) (List.cons_ne_nil _ _) bracket
      simpa [labelChars] using this
    | none =>
      have := ended "lass ".toList word.some word.endsSolid
      simpa [labelChars] using this

/-- What the head of a class says. -/
theorem says_head {e : Element} (word : IsWord e.id) (quotable : IsQuotable e.label)
    {line : String} {tail : List Char} {body : Option String} (opening : Opening tail body)
    (unbrokenTail : '\n' ∉ tail) (split : line.toList = (headText e).toList ++ tail) :
    Says line (.declare e.id (shownLabel e) body) := by
  have shown : ∀ l ∈ shownLabel e, IsQuotable l := by
    intro l h
    unfold shownLabel at h
    split at h
    · obtain rfl := Option.some.inj h
      exact quotable
    · cases h
  have chars : line.toList =
      "class".toList ++ ' ' :: (e.id.toList ++ (labelChars (shownLabel e) ++ tail)) := by
    rw [split, toList_headText]
    simp
  have unbroken : '\n' ∉ labelChars (shownLabel e) := by
    cases shownLabel e with
    | none => simp [labelChars]
    | some l => simp [labelChars, Text.not_mem_quoted l]
  refine ⟨⟨⟨'c', _, chars, by decide⟩, ?_, ?_⟩, ?_⟩ <;> rw [chars]
  · simp [word.unbroken, unbroken, unbrokenTail]
  · exact trim_head word (shownLabel e) opening
  · exact (reads_declare word shown opening).orElse

/-! ### Relations -/

theorem Relation.ofKey_key {kind : String} (known : (Relation.ofKey? kind).isSome) :
    (Relation.ofKey kind).key = kind := by
  obtain ⟨r, found⟩ := Option.isSome_iff_exists.1 known
  have same := List.find?_some found
  rw [Relation.ofKey, found, Option.getD_some]
  simpa using same

def cardinalityChars : Option String → List Char
  | some s => ' ' :: (Text.quoted s).toList
  | none => []

theorem toList_cardinalityText (o : Option String) :
    (cardinalityText o).toList = cardinalityChars o := by
  cases o with
  | none => rfl
  | some s => exact String.toList_append

/-- A relation as it is written, up to its label. -/
def relationChars (source target : String) (r : Relation) (left right : Option String)
    (rest : List Char) : List Char :=
  source.toList ++ (cardinalityChars left ++ ' ' :: (r.token.toList ++
    (cardinalityChars right ++ ' ' :: (target.toList ++ rest))))

theorem isInlineBlank_written (o : Option String) :
    (∀ c ∈ (o.elim [] fun _ => [' ']) ++ [' '], Text.isInlineBlank c) ∧
      ∀ c ∈ [' '] ++ (o.elim [] fun _ => [' ']), Text.isInlineBlank c := by
  cases o <;> exact ⟨Text.forall_mem_of_all rfl, Text.forall_mem_of_all rfl⟩

/-- One blank on either side of the token and of each cardinality. -/
def written (left right : Option String) : Spacing where
  __ := Spacing.usual
  left := left.elim [] fun _ => [' ']
  right := right.elim [] fun _ => [' ']
  leftBlank := (isInlineBlank_written left).1
  rightBlank := (isInlineBlank_written right).2

/-- A cardinality as it stands between its quotes. -/
def encoded (cardinality : String) : String := String.ofList (Text.encodeQuotes cardinality.toList)

theorem decoded_encoded {o : Option String} (quotable : ∀ s ∈ o, IsQuotable s) :
    (o.map encoded).map Text.decoded = o := by
  cases o with
  | none => rfl
  | some s =>
    have back : Text.requoted s = s := (quotable s rfl).requoted
    rw [Option.map_some, Option.map_some, Text.decoded, encoded, String.toList_ofList, ← Text.requoted, back]

theorem relationChars_eq (source target : String) (r : Relation) (left right : Option String) (rest : List Char) :
    relationChars source target r left right rest =
      (written left right).chars source (left.map encoded) r.token (right.map encoded) target rest := by
  cases left <;> cases right <;>
    simp [relationChars, Spacing.chars, written, Spacing.usual, gapChars, cardinalityChars, encoded, Text.toList_quoted]

theorem reads_relationChars (source' : IsWord source) (target' : IsWord target) (r : Relation)
    {left right : Option String} (leftQuotable : ∀ s ∈ left, IsQuotable s)
    (rightQuotable : ∀ s ∈ right, IsQuotable s) {label : Option String}
    (stops : Stops Text.isWordChar rest) (labelled : Reads Reader.colonLabel rest label []) :
    Reads statement (relationChars source target r left right rest)
      (.relation source target r left right label) [] := by
  have bare (o : Option String) : ∀ c ∈ o.map encoded, '"' ∉ c.toList := by
    intro c h
    obtain ⟨s, -, rfl⟩ := Option.map_eq_some_iff.1 h
    rw [encoded, String.toList_ofList]
    exact Text.not_mem_encodeQuotes s.toList
  have read := Spacing.reads_statement (s := written left right) source' target' r.mem_pointings
    (bare left) (bare right) stops labelled
  rwa [decoded_encoded leftQuotable, decoded_encoded rightQuotable, ← relationChars_eq] at read

/-- What source shows of a relation. -/
structure Tie where
  source : String
  target : String
  kind : String
  label : String
  sourceCardinality : Option String
  targetCardinality : Option String
deriving DecidableEq, Repr

def tie (c : Connection) : Tie :=
  ⟨c.source, c.target, c.kind, c.label, c.property? sourceCardinalityKey, c.property? targetCardinalityKey⟩

/-- A relation that source can carry. -/
structure Tie.IsTextual (t : Tie) : Prop where
  known : (Relation.ofKey? t.kind).isSome
  tight : Text.trimmed t.label = t.label
  cr : '\r' ∉ t.label.toList
  lf : '\n' ∉ t.label.toList
  sourceCardinality : ∀ s ∈ t.sourceCardinality, IsQuotable s
  targetCardinality : ∀ s ∈ t.targetCardinality, IsQuotable s

instance (t : Tie) : Decidable t.IsTextual :=
  decidable_of_iff ((Relation.ofKey? t.kind).isSome ∧ Text.trimmed t.label = t.label ∧
      '\r' ∉ t.label.toList ∧ '\n' ∉ t.label.toList ∧ (∀ s ∈ t.sourceCardinality, IsQuotable s) ∧
      ∀ s ∈ t.targetCardinality, IsQuotable s)
    ⟨fun ⟨k, t, cr, lf, s, e⟩ => ⟨k, t, cr, lf, s, e⟩,
      fun h => ⟨h.known, h.tight, h.cr, h.lf, h.sourceCardinality, h.targetCardinality⟩⟩

/-- What the line of a relation says. -/
def Tie.statement (t : Tie) : Statement :=
  .relation t.source t.target (Relation.ofKey t.kind) t.sourceCardinality t.targetCardinality
    (Reader.nonEmpty t.label)

theorem not_mem_cardinalityChars (o : Option String) : '\n' ∉ cardinalityChars o := by
  cases o with
  | none => simp [cardinalityChars]
  | some s => simp [cardinalityChars, Text.not_mem_quoted s]

theorem says_relationText {c : Connection} (source : IsWord c.source) (target : IsWord c.target)
    (textual : (tie c).IsTextual) : Says (relationText c) (tie c).statement := by
  have tight : Text.trimmed c.label = c.label := textual.tight
  have cr : '\r' ∉ c.label.toList := textual.cr
  have lf : '\n' ∉ c.label.toList := textual.lf
  let r := Relation.ofKey c.kind
  have tokenUnbroken : '\n' ∉ r.token.toList := by cases r <;> decide
  -- The label, if there is one, ends the line; otherwise the target does.
  obtain ⟨rest, chars, stops, labelled, unbroken, tail⟩ : ∃ rest : List Char,
      (relationText c).toList = relationChars c.source c.target r (tie c).sourceCardinality
        (tie c).targetCardinality rest ∧ Stops Text.isWordChar rest ∧
      Reads Reader.colonLabel rest (Reader.nonEmpty c.label) [] ∧ '\n' ∉ rest ∧
      Text.trim (c.target.toList ++ rest) = c.target.toList ++ rest := by
    by_cases none : c.label = ""
    · refine ⟨[], ?_, by simp, ?_, by simp, ?_⟩
      · have hidden : c.hasLabel = false := by
          rw [← Bool.not_eq_true, Connection.hasLabel_iff tight]
          simp [none]
        simp [relationText, hidden, toList_cardinalityText, relationChars, tie, r]
      · rw [none]
        exact Reader.reads_colonLabel_none
      · rw [List.append_nil]
        exact Text.trim_of_trimmed target.trimmed
    · refine ⟨':' :: ' ' :: c.label.toList, ?_, by simp; decide, Reader.reads_colonLabel tight, ?_, ?_⟩
      · have hasLabel := (Connection.hasLabel_iff tight).2 none
        simp [relationText, hasLabel, toList_cardinalityText, relationChars, tie, r,
          Text.singleLine_eq_self cr lf]
      · simpa using lf
      · exact target.trim_append [':', ' '] (mt String.toList_eq_nil_iff.1 none) (Text.trim_of_trimmed tight)
  refine ⟨⟨?_, ?_, ?_⟩, ?_⟩ <;> rw [chars]
  · obtain ⟨d, ds, split, first⟩ := source.first (cardinalityChars (tie c).sourceCardinality ++ ' ' ::
      (r.token.toList ++ (cardinalityChars (tie c).targetCardinality ++ ' ' :: (c.target.toList ++ rest))))
    exact ⟨d, ds, split, by rintro rfl; exact absurd first (by decide)⟩
  · simp only [relationChars, List.mem_append, List.mem_cons, not_or]
    exact ⟨source.unbroken, not_mem_cardinalityChars _, by decide, tokenUnbroken,
      not_mem_cardinalityChars _, by decide, target.unbroken, unbroken⟩
  · have ended : c.target.toList ++ rest ≠ [] := by simp [target.some]
    have whole := source.trim_append
      (cardinalityChars (tie c).sourceCardinality ++ ' ' :: (r.token.toList ++
        (cardinalityChars (tie c).targetCardinality ++ [' ']))) ended tail
    simpa [relationChars] using whole
  · exact reads_relationChars source target r textual.sourceCardinality textual.targetCardinality stops labelled

end DiagramText.Classes
