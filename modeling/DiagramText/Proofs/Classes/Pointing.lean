import DiagramText.Classes.Statement
import DiagramText.Proofs.Quoting
import DiagramText.Proofs.Reader.Keywords

/-! Relations, wherever their blanks stand and whichever way they point. A token is tried before the
tokens that start it, and no rule that comes before a relation takes the line away from it. -/
namespace DiagramText.Classes

open Reader (Reads Refuses Stops)
open Text (IsWord)

variable {name source target : String} {rest : List Char}

/-! ### Tokens -/

namespace Relation

theorem mem_all (r : Relation) : r ∈ all := by cases r <;> decide

theorem mem_pointings (r : Relation) : (r.token, ⟨r, false⟩) ∈ pointings :=
  List.mem_append_right _ (List.mem_map_of_mem r.mem_all)

theorem reversed_mem_pointings {r : Relation} {reversed : String} (mirrored : r.reversedToken? = some reversed) :
    (reversed, ⟨r, true⟩) ∈ pointings :=
  List.mem_append_left _ (List.mem_filterMap.2 ⟨r, r.mem_all, by rw [mirrored]; rfl⟩)

end Relation

variable {p : String × Pointing}

/-- A token that is tried earlier is another one at its start, or goes on with more than a blank. -/
theorem pairwise_pointings : pointings.Pairwise fun q p => ¬ q.1.toList <+: p.1.toList ∧
    (q.1.toList.drop p.1.toList.length).head?.all fun c => !Text.isInlineBlank c := by decide

theorem reads_pointing (there : p ∈ pointings) {c : Char} (blank : Text.isInlineBlank c) (rest : List Char) :
    Reads (Reader.oneOf pointings) (p.1.toList ++ c :: rest) p.2 (c :: rest) := by
  refine Reader.reads_oneOf_mem (pairwise_pointings.imp fun ⟨out, next⟩ => ?_) there
  refine Text.not_prefix_append out fun _ same => ?_
  simp [same, blank] at next

/-- A character that no class can be declared with: it neither goes on with a name nor comes after one. -/
structure IsSign (c : Char) : Prop where
  noLetter : Text.isWordChar c = false
  noBlank : Text.isInlineBlank c = false
  noBracket : c ≠ '['
  noBrace : c ≠ '\x7b'

instance (c : Char) : Decidable (IsSign c) :=
  decidable_of_iff (Text.isWordChar c = false ∧ Text.isInlineBlank c = false ∧ c ≠ '[' ∧ c ≠ '\x7b')
    ⟨fun ⟨l, b, o, c⟩ => ⟨l, b, o, c⟩, fun h => ⟨h.noLetter, h.noBlank, h.noBracket, h.noBrace⟩⟩

/-- A token has a sign behind the letter that it may start with. -/
theorem exists_sign (there : p ∈ pointings) : ∃ start sign tail, p.1.toList = start ++ sign :: tail ∧
    (∀ c ∈ start, Text.isWordChar c) ∧ IsSign sign := by
  have signs : ∀ p ∈ pointings, (p.1.toList.dropWhile Text.isWordChar).head?.any (IsSign ·) := by decide
  have after := signs p there
  cases split : p.1.toList.dropWhile Text.isWordChar with
  | nil =>
    rw [split] at after
    cases after
  | cons sign tail =>
    refine ⟨p.1.toList.takeWhile Text.isWordChar, sign, tail, ?_, List.all_eq_true.1 List.all_takeWhile, ?_⟩
    · rw [← split, List.takeWhile_append_dropWhile]
    · simpa [split] using after

theorem head_token (there : p ∈ pointings) (rest : List Char) :
    Stops Text.isInlineBlank (p.1.toList ++ rest) ∧ ¬ ['"'] <+: p.1.toList ++ rest := by
  have heads : ∀ p ∈ pointings, (p.1.toList.head?.any fun c => !Text.isInlineBlank c) ∧
      p.1.toList.head?.any ('"' != ·) := by decide
  exact ⟨Reader.stops_append (heads p there).1 rest, Text.not_prefix_of_first (by simpa using (heads p there).2)⟩

/-! ### What is no class and no stereotype -/

/-- The keyword is a name where a sign comes before the end of what would be declared. -/
theorem refuses_declare_class {bs start tail : List Char} {sign : Char} (blank : ∀ c ∈ bs, Text.isInlineBlank c)
    (letters : ∀ c ∈ start, Text.isWordChar c) (isSign : IsSign sign) :
    Refuses declare ("class".toList ++ (bs ++ (start ++ sign :: tail))) := by
  have ends : Stops Text.isWordChar (sign :: tail) := (Reader.stops_cons _ sign tail).2 isSign.noLetter
  have solid : Stops Text.isInlineBlank (start ++ sign :: tail) := by
    cases start with
    | nil => exact (Reader.stops_cons _ sign tail).2 isSign.noBlank
    | cons c start =>
      exact (Reader.stops_cons _ c _).2 (Text.isInlineBlank_eq_false_of_isWordChar (letters c (by simp)))
  refine (Reader.reads_token "class" _).refuses_bind ?_
  by_cases close : bs = []
  · rw [close]
    exact (Reader.refuses_inlineBlanks1 solid).bind _
  have gap : Reads Reader.inlineBlanks1 (bs ++ (start ++ sign :: tail)) () (start ++ sign :: tail) :=
    (Reader.reads_run1 close blank solid).bind (Reads.pure () _)
  refine gap.refuses_bind ?_
  by_cases bare : start = []
  · rw [bare]
    exact (Reader.refuses_identifier ends).bind _
  have named : Reads Reader.identifier (start ++ sign :: tail) (String.ofList start) (sign :: tail) :=
    (Reader.reads_run1 bare letters ends).map String.ofList
  have noLabel : Refuses bracketed (sign :: tail) := by
    rw [bracketed, seqLeft_eq_bind]
    exact ((Reader.refuses_token (by simpa using Ne.symm isSign.noBracket)).seqRight _).bind _
  have here : Reads Reader.inlineBlanks (sign :: tail) () (sign :: tail) :=
    Reader.reads_noBlanks ((Reader.stops_cons _ sign tail).2 isSign.noBlank)
  have noBody : Refuses openBody (sign :: tail) :=
    (here.refuses_seqRight (Reader.refuses_token (by simpa using Ne.symm isSign.noBrace))).seqRight _
  exact named.refuses_bind (noLabel.optional.refuses_bind (noBody.optional.refuses_bind
    (here.refuses_bind ((Reader.refuses_atEnd (List.cons_ne_nil _ _)).bind _))))

theorem refuses_declare (word : IsWord name) {bs start tail : List Char} {sign : Char}
    (blank : ∀ c ∈ bs, Text.isInlineBlank c) (letters : ∀ c ∈ start, Text.isWordChar c) (isSign : IsSign sign)
    (stops : Stops Text.isWordChar (bs ++ (start ++ sign :: tail))) :
    Refuses declare (name.toList ++ (bs ++ (start ++ sign :: tail))) := by
  by_cases same : name = "class"
  · subst same
    exact refuses_declare_class blank letters isSign
  · exact Reader.refuses_token_bind (by decide) word stops (fun keyword => absurd keyword same)
      fun c cs first => Reader.refuses_blanksAtWord first

theorem refuses_stereotype (word : IsWord name) (rest : List Char) :
    Refuses stereotype (name.toList ++ rest) := by
  refine Refuses.bind (Reader.refuses_token ?_) _
  obtain ⟨c, cs, split, first⟩ := word.first rest
  rw [split]
  intro angle
  obtain ⟨rfl, -⟩ := List.cons_prefix_cons.1 angle
  exact absurd first (by decide)

/-! ### Cardinalities -/

/-- What stands between a name and a token: blanks, and a cardinality among them if there is one. -/
def gapChars (front : List Char) (cardinality : Option String) (back : List Char) : List Char :=
  match cardinality with
  | some s => front ++ '"' :: (s.toList ++ '"' :: back)
  | none => front ++ back

section Gap

variable {front back : List Char} {o : Option String}

theorem reads_gap (blank : ∀ c ∈ front ++ back, Text.isInlineBlank c) (free : ∀ s ∈ o, '"' ∉ s.toList)
    (stops : Stops Text.isInlineBlank rest) (bare : ¬ ['"'] <+: rest) :
    ∃ mid, Reads Reader.inlineBlanks (gapChars front o back ++ rest) () mid ∧
      Reads cardinality mid (o.map Text.decoded) rest := by
  cases o with
  | none =>
    have refused : Refuses (Reader.quoted <* Reader.inlineBlanks) rest := by
      rw [seqLeft_eq_bind]
      exact (Reader.refuses_quoted bare).bind _
    exact ⟨rest, Reader.reads_inlineBlanks blank stops, refused.optional⟩
  | some s =>
    rw [List.forall_mem_append] at blank
    have quote : Stops Text.isInlineBlank ('"' :: (s.toList ++ '"' :: (back ++ rest))) :=
      (Reader.stops_cons _ '"' _).2 (by decide)
    have text := Reader.reads_quoted (free s rfl) (back ++ rest)
    refine ⟨_, ?_, (text.seqLeft (Reader.reads_inlineBlanks blank.2 stops)).optional⟩
    simpa [gapChars] using Reader.reads_inlineBlanks blank.1 quote

/-- A gap with a blank or a cardinality in it stops a name, and makes the name no class. -/
theorem separates_gap (word : IsWord name) (blank : ∀ c ∈ front ++ back, Text.isInlineBlank c)
    (apart : back ≠ []) (there : p ∈ pointings) (rest : List Char) :
    Stops Text.isWordChar (gapChars front o back ++ (p.1.toList ++ rest)) ∧
      Refuses declare (name.toList ++ (gapChars front o back ++ (p.1.toList ++ rest))) := by
  cases o with
  | none =>
    obtain ⟨start, sign, tail, token, letters, isSign⟩ := exists_sign there
    have stops : Stops Text.isWordChar (front ++ back ++ (p.1.toList ++ rest)) :=
      Text.stops_blanks blank fun none => absurd (List.append_eq_nil_iff.1 none).2 apart
    refine ⟨stops, ?_⟩
    rw [gapChars, token, List.append_assoc start]
    rw [token, List.append_assoc start] at stops
    exact refuses_declare word blank letters isSign stops
  | some s =>
    rw [List.forall_mem_append] at blank
    have chars : gapChars front (some s) back ++ (p.1.toList ++ rest) =
        front ++ ([] ++ '"' :: (s.toList ++ '"' :: (back ++ (p.1.toList ++ rest)))) := by simp [gapChars]
    have stops : Stops Text.isWordChar (front ++ ([] ++ '"' :: (s.toList ++ '"' :: (back ++ (p.1.toList ++ rest))))) :=
      Text.stops_blanks blank.1 fun _ => (Reader.stops_cons _ '"' _).2 (by decide)
    rw [chars]
    exact ⟨stops, refuses_declare word blank.1 (by simp) (by decide) stops⟩

end Gap

/-! ### Relations -/

/-- What a relation says whose token points as given. -/
def Pointing.statement (p : Pointing) (left right : String) (leftCardinality rightCardinality label : Option String) :
    Statement :=
  if p.reversed then .relation right left p.relation rightCardinality leftCardinality label
  else .relation left right p.relation leftCardinality rightCardinality label

/-- Where the blanks of a relation stand. There is one at least on either side of the token; the
others stand between the cardinalities and the names, and before the colon. -/
structure Spacing where
  left : List Char
  before : List Char
  after : List Char
  right : List Char
  colon : List Char
  before_ne_nil : before ≠ []
  after_ne_nil : after ≠ []
  leftBlank : ∀ c ∈ left ++ before, Text.isInlineBlank c
  rightBlank : ∀ c ∈ after ++ right, Text.isInlineBlank c
  colonBlank : ∀ c ∈ colon, Text.isInlineBlank c

namespace Spacing

variable {s : Spacing} {leftCardinality rightCardinality label : Option String}

/-- A blank wherever there can be one. -/
def usual : Spacing where
  left := [' ']
  before := [' ']
  after := [' ']
  right := [' ']
  colon := [' ']
  before_ne_nil := List.cons_ne_nil _ _
  after_ne_nil := List.cons_ne_nil _ _
  leftBlank := Text.forall_mem_of_all rfl
  rightBlank := Text.forall_mem_of_all rfl
  colonBlank := Text.forall_mem_of_all rfl

/-- A relation as it stands on a line, up to its label. -/
def chars (s : Spacing) (left : String) (leftCardinality : Option String) (token : String)
    (rightCardinality : Option String) (right : String) (rest : List Char) : List Char :=
  left.toList ++ (gapChars s.left leftCardinality s.before ++ (token.toList ++
    (gapChars s.after rightCardinality s.right ++ (right.toList ++ rest))))

theorem reads_relation (source' : IsWord source) (target' : IsWord target) (there : p ∈ pointings)
    (leftFree : ∀ c ∈ leftCardinality, '"' ∉ c.toList) (rightFree : ∀ c ∈ rightCardinality, '"' ∉ c.toList)
    (stops : Stops Text.isWordChar rest) (labelled : Reads Reader.colonLabel rest label []) :
    Reads relation (s.chars source leftCardinality p.1 rightCardinality target rest)
      (p.2.statement source target (leftCardinality.map Text.decoded) (rightCardinality.map Text.decoded) label) [] := by
  obtain ⟨ends, -⟩ := separates_gap (o := leftCardinality) source' s.leftBlank s.before_ne_nil there
    (gapChars s.after rightCardinality s.right ++ (target.toList ++ rest))
  obtain ⟨solid, bare⟩ := head_token there (gapChars s.after rightCardinality s.right ++ (target.toList ++ rest))
  have targetBare : ¬ ['"'] <+: target.toList ++ rest := by
    obtain ⟨c, cs, split, first⟩ := target'.first rest
    rw [split]
    intro quote
    obtain ⟨rfl, -⟩ := List.cons_prefix_cons.1 quote
    exact absurd first (by decide)
  obtain ⟨mid, leftGap, leftRead⟩ := reads_gap s.leftBlank leftFree solid bare
  obtain ⟨mid', rightGap, rightRead⟩ := reads_gap s.rightBlank rightFree (target'.stops rest) targetBare
  have pointed : Reads (Reader.oneOf pointings)
      (p.1.toList ++ (gapChars s.after rightCardinality s.right ++ (target.toList ++ rest))) p.2
      (gapChars s.after rightCardinality s.right ++ (target.toList ++ rest)) := by
    obtain ⟨c, after, split⟩ := List.exists_cons_of_ne_nil s.after_ne_nil
    have blank : Text.isInlineBlank c := s.rightBlank c (by simp [split])
    cases rightCardinality <;> simpa [gapChars, split] using reads_pointing there blank _
  have pointedTo : Reads (if p.2.reversed then Pure.pure (.relation target source p.2.relation
          (rightCardinality.map Text.decoded) (leftCardinality.map Text.decoded) label)
        else Pure.pure (.relation source target p.2.relation
          (leftCardinality.map Text.decoded) (rightCardinality.map Text.decoded) label) : Reader Statement) []
      (p.2.statement source target (leftCardinality.map Text.decoded) (rightCardinality.map Text.decoded) label) [] := by
    unfold Pointing.statement
    split <;> exact Reads.pure _ []
  exact (Reader.reads_identifier source' ends).bind (leftGap.bind (leftRead.bind (pointed.bind (rightGap.bind
    (rightRead.bind ((Reader.reads_identifier target' stops).bind (labelled.bind
      (Reader.reads_atEnd.bind pointedTo))))))))

theorem reads_statement (source' : IsWord source) (target' : IsWord target) (there : p ∈ pointings)
    (leftFree : ∀ c ∈ leftCardinality, '"' ∉ c.toList) (rightFree : ∀ c ∈ rightCardinality, '"' ∉ c.toList)
    (stops : Stops Text.isWordChar rest) (labelled : Reads Reader.colonLabel rest label []) :
    Reads statement (s.chars source leftCardinality p.1 rightCardinality target rest)
      (p.2.statement source target (leftCardinality.map Text.decoded) (rightCardinality.map Text.decoded) label) [] := by
  obtain ⟨-, noClass⟩ := separates_gap (o := leftCardinality) source' s.leftBlank s.before_ne_nil there
    (gapChars s.after rightCardinality s.right ++ (target.toList ++ rest))
  exact noClass.orElse ((refuses_stereotype source' _).orElse
    (reads_relation source' target' there leftFree rightFree stops labelled).orElse)

end Spacing
end DiagramText.Classes
