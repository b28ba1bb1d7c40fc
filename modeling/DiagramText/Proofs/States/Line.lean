import DiagramText.Proofs.Line
import DiagramText.Proofs.Quoting
import DiagramText.Proofs.Reader.Keywords
import DiagramText.States.Printer

/-! The lines of state source. A declaration is read back from its label, its id and the marks behind
them, a transition from its two ends and its label. -/
namespace DiagramText.States

open Outline (Item)
open Reader (Reads Refuses Stops)
open Text (EndsSolid IsWord)

/-- What the mark of a state says. -/
def pseudo? (e : Element) : Option Pseudo := (e.property? pseudoKey).bind Pseudo.ofName?

theorem ofName?_name (p : Pseudo) : Pseudo.ofName? p.name = some p := by cases p <;> decide

theorem pseudo?_of_get? {p : Option Pseudo} {e : Element}
    (found : e.properties.get? pseudoKey = p.map fun p => .str p.name) : pseudo? e = p := by
  rw [pseudo?, Element.property?, found]
  cases p with
  | none => rfl
  | some p => exact ofName?_name p

/-- The label that a declaration shows; the id shows itself. -/
def shownLabel? (e : Element) : Option String :=
  if e.label = "" ∨ e.label = e.id then none else some (Text.requoted e.label)

/-- What the line of an outline says. -/
def itemStatement : Item → Statement
  | .leaf e _ => .declare e.id (shownLabel? e) (pseudo? e) false
  | .opens e _ => .declare e.id (shownLabel? e) (pseudo? e) true
  | .closes _ => .close

/-- The line of an outline without its indentation. -/
def itemText : Item → String
  | .leaf e _ => declarationText e
  | .opens e _ => declarationText e ++ " \x7b"
  | .closes _ => "\x7d"

theorem itemLine_eq (layout : Layout) (item : Item) :
    ∃ depth, itemLine layout item = layout.indented depth (itemText item) := by
  cases item <;> exact ⟨_, rfl⟩

variable {e : Element} {rest : List Char}

/-! ### Declarations -/

def nameChars (e : Element) : List Char :=
  if e.label = "" ∨ e.label = e.id then e.id.toList
  else (Text.quoted e.label).toList ++ ' ' :: 'a' :: 's' :: ' ' :: e.id.toList

def pseudoChars : Option Pseudo → List Char
  | some p => ' ' :: '<' :: '<' :: (p.name.toList ++ ['>', '>'])
  | none => []

def blockChars (opensBlock : Bool) : List Char := if opensBlock then [' ', '\x7b'] else []

theorem toList_declarationText (e : Element) :
    (declarationText e).toList = "state".toList ++ ' ' :: (nameChars e ++ pseudoChars (pseudo? e)) := by
  unfold declarationText pseudo? nameChars
  dsimp only
  split <;> split <;> simp [pseudoChars, *]

/-- What comes after the name of a state starts with a blank, if there is anything. -/
theorem head?_marks (p : Option Pseudo) (opensBlock : Bool) :
    ∀ c ∈ (pseudoChars p ++ blockChars opensBlock).head?, c = ' ' := by
  cases p <;> cases opensBlock <;> simp [pseudoChars, blockChars]

theorem reads_mark (p : Pseudo) (rest : List Char) :
    Reads Pseudo.reader (pseudoChars (some p) ++ rest) p rest := by
  have name : Reads (Reader.oneOf (Pseudo.all.map fun p => (p.name, p)))
      (p.name.toList ++ ('>' :: '>' :: rest)) p ('>' :: '>' :: rest) := by
    refine Reader.reads_oneOf_map (by cases p <;> decide) fun q before => Text.not_prefix_of_first ?_
    revert q
    cases p <;> decide
  have opening (cs : List Char) : Reads (Reader.token "<<") ('<' :: '<' :: cs) () cs :=
    Reader.reads_token "<<" cs
  have closing : Reads (Reader.token ">>") ('>' :: '>' :: rest) () rest := Reader.reads_token ">>" rest
  have split : pseudoChars (some p) ++ rest = ' ' :: '<' :: '<' :: (p.name.toList ++ '>' :: '>' :: rest) := by
    simp [pseudoChars]
  rw [split]
  exact (Reader.reads_space1 (by simp; decide)).bind
    ((opening _).bind (name.bind (closing.bind (Reads.pure p rest))))

/-- A mark is read where there is one, and none where a block opens or nothing is left. -/
theorem reads_optionalMark (p : Option Pseudo) (opensBlock : Bool) :
    Reads (optional Pseudo.reader) (pseudoChars p ++ blockChars opensBlock) p (blockChars opensBlock) := by
  cases p with
  | some p => exact (reads_mark p _).optional
  | none =>
    refine Refuses.optional ?_
    cases opensBlock with
    | false => exact (Reader.refuses_inlineBlanks1 (Reader.stops_nil _)).bind _
    | true =>
      exact (Reader.reads_space1 (by simp; decide)).refuses_bind
        ((Reader.refuses_token (by decide)).bind _)

theorem reads_block (opensBlock : Bool) :
    Reads (optional (Reader.inlineBlanks *> Reader.token "\x7b")) (blockChars opensBlock)
      (if opensBlock then some () else none) [] := by
  cases opensBlock with
  | false =>
    exact Refuses.optional ((Reader.reads_noBlanks (Reader.stops_nil _)).refuses_seqRight
      (Reader.refuses_token (by decide)))
  | true => exact ((Reader.reads_space (by simp; decide)).seqRight (Reader.reads_token "\x7b" [])).optional

/-- The id of a state with its label before it, or alone. -/
theorem reads_name (word : IsWord e.id) (stops : Stops Text.isWordChar rest) :
    Reads (labelled <|> (fun id => (id, none)) <$> Reader.identifier) (nameChars e ++ rest)
      (e.id, shownLabel? e) rest := by
  have id := Reader.reads_identifier word stops
  unfold nameChars shownLabel?
  split
  · have noQuote : ¬ ['"'] <+: e.id.toList ++ rest := by
      obtain ⟨c, cs, split, first⟩ := word.first rest
      rw [split]
      intro quote
      obtain ⟨rfl, -⟩ := List.cons_prefix_cons.1 quote
      exact absurd first (by decide)
    exact ((Reader.refuses_quoted noQuote).bind _).orElse (id.map fun id => (id, none))
  · have as (cs : List Char) : Reads (Reader.token "as") ('a' :: 's' :: cs) () cs :=
      Reader.reads_token "as" cs
    rw [List.append_assoc]
    exact Reads.orElse ((Text.reads_quoted e.label _).bind
      ((Reader.reads_space1 (by simp; decide)).bind ((as _).bind
        ((Reader.reads_space1 (word.stops rest)).bind (id.bind (Reads.pure _ rest))))))

theorem stops_nameChars (word : IsWord e.id) (rest : List Char) :
    Stops Text.isInlineBlank (nameChars e ++ rest) := by
  unfold nameChars
  split
  · exact word.stops rest
  · rw [Text.toList_quoted]
    simp
    decide

theorem reads_declare (word : IsWord e.id) (opensBlock : Bool) :
    Reads declare ("state".toList ++ ' ' :: (nameChars e ++
        (pseudoChars (pseudo? e) ++ blockChars opensBlock)))
      (.declare e.id (shownLabel? e) (pseudo? e) opensBlock) [] := by
  have stops : Stops Text.isWordChar (pseudoChars (pseudo? e) ++ blockChars opensBlock) := by
    intro c first
    rw [head?_marks _ _ c first]
    decide
  have last : Reads (pure (Statement.declare e.id (shownLabel? e) (pseudo? e)
      (if opensBlock then some () else none).isSome)) []
      (.declare e.id (shownLabel? e) (pseudo? e) opensBlock) [] := by
    cases opensBlock <;> exact Reads.pure _ []
  exact (Reader.reads_token "state" _).bind ((Reader.reads_space1 (stops_nameChars word _)).bind
    ((reads_name word stops).bind ((reads_optionalMark _ opensBlock).bind
      ((reads_block opensBlock).bind (Reader.reads_atEnd.bind last)))))

theorem endsSolid_marks (p : Option Pseudo) (opensBlock : Bool) :
    EndsSolid (pseudoChars p ++ blockChars opensBlock) := by
  have ends : EndsSolid ['>', '>'] ∧ EndsSolid [' ', '\x7b'] := by simp [EndsSolid]; decide
  have mark : EndsSolid (pseudoChars p) := by
    cases p with
    | none => simp [EndsSolid, pseudoChars]
    | some p =>
      exact ends.1.append_of_ne_nil (List.cons_ne_nil _ _) (' ' :: '<' :: '<' :: p.name.toList)
  cases opensBlock with
  | false => exact mark.append (by simp [EndsSolid, blockChars])
  | true => exact mark.append ends.2

/-- The line of a declaration. -/
theorem says_declaration {line : String} (word : IsWord e.id) (opensBlock : Bool)
    (split : line.toList = "state".toList ++ ' ' :: (nameChars e ++
      (pseudoChars (pseudo? e) ++ blockChars opensBlock))) :
    Source.Says statement line (.declare e.id (shownLabel? e) (pseudo? e) opensBlock) where
  first := ⟨'s', _, split, by decide⟩
  unbroken := by
    have name : '\n' ∉ nameChars e := by
      unfold nameChars
      split
      · exact word.unbroken
      · simp [Text.not_mem_quoted, word.unbroken]
    have marks : '\n' ∉ pseudoChars (pseudo? e) ++ blockChars opensBlock := by
      cases pseudo? e with
      | none => cases opensBlock <;> decide
      | some p => cases p <;> cases opensBlock <;> decide
    rw [split, List.mem_append, List.mem_cons, List.mem_append, not_or, not_or, not_or]
    exact ⟨by decide, by decide, name, marks⟩
  tight := by
    have solid : EndsSolid (nameChars e) := by
      unfold nameChars
      split
      · exact word.endsSolid
      · have named := word.endsSolid.append_of_ne_nil word.some
          ((Text.quoted e.label).toList ++ [' ', 'a', 's', ' '])
        simpa using named
    have some : nameChars e ≠ [] := by
      unfold nameChars
      split
      · exact word.some
      · simp
    have whole := (solid.append_of_ne_nil some "state ".toList).append
      (endsSolid_marks (pseudo? e) opensBlock)
    rw [split]
    refine Text.trim_eq_self (by simp; decide) (show EndsSolid _ from ?_)
    simpa using whole
  reads := by
    rw [split]
    exact (reads_declare word opensBlock).orElse

theorem says_close : Source.Says statement "\x7d" .close where
  first := ⟨'\x7d', [], rfl, by decide⟩
  unbroken := by decide
  tight := by decide
  reads := rfl

theorem says_leaf (word : IsWord e.id) (depth : Nat) :
    Source.Says statement (itemText (.leaf e depth)) (itemStatement (.leaf e depth)) :=
  says_declaration word false (by simp [itemText, toList_declarationText, blockChars])

theorem says_opens (word : IsWord e.id) (depth : Nat) :
    Source.Says statement (itemText (.opens e depth)) (itemStatement (.opens e depth)) :=
  says_declaration word true (by simp [itemText, toList_declarationText, blockChars])

/-! ### Transitions -/

/-- What an end of a transition is named by. -/
def IsRef (s : String) : Prop := IsWord s ∨ s = terminal

theorem ne_terminal {id : String} (word : IsWord id) : id ≠ terminal := by
  rintro rfl
  exact absurd (word.chars '[' (by decide)) (by decide)

variable {s source target : String}

theorem IsRef.first (isRef : IsRef s) (rest : List Char) :
    ∃ c cs, s.toList ++ rest = c :: cs ∧ (Text.isWordChar c ∨ c = '[') := by
  rcases isRef with word | rfl
  · obtain ⟨c, cs, split, first⟩ := word.first rest
    exact ⟨c, cs, split, .inl first⟩
  · exact ⟨'[', _, rfl, .inr rfl⟩

theorem IsRef.stops (isRef : IsRef s) (rest : List Char) : Stops Text.isInlineBlank (s.toList ++ rest) := by
  rcases isRef with word | rfl
  · exact word.stops rest
  · rw [terminal]
    simp
    decide

theorem IsRef.unbroken (isRef : IsRef s) : '\n' ∉ s.toList := by
  rcases isRef with word | rfl
  · exact word.unbroken
  · decide

theorem IsRef.ne_nil (isRef : IsRef s) : s.toList ≠ [] := by
  rcases isRef with word | rfl
  · exact word.some
  · decide

theorem IsRef.endsSolid (isRef : IsRef s) : EndsSolid s.toList := by
  rcases isRef with word | rfl
  · exact word.endsSolid
  · simp [terminal, EndsSolid]
    decide

theorem reads_stateRef (isRef : IsRef s) (stops : Stops Text.isWordChar rest) :
    Reads stateRef (s.toList ++ rest) s rest := by
  rcases isRef with word | rfl
  · refine Refuses.orElse (Refuses.seqRight (Reader.refuses_token ?_) _)
      (Reader.reads_identifier word stops)
    obtain ⟨c, cs, split, first⟩ := word.first rest
    rw [split]
    intro start
    obtain ⟨rfl, -⟩ := List.cons_prefix_cons.1 start
    exact absurd first (by decide)
  · exact ((Reader.reads_token terminal rest).seqRight (Reads.pure terminal rest)).orElse

/-- The label that a transition shows. -/
def transitionLabel? (c : Connection) : Option String :=
  if c.hasLabel then some (Text.oneLine c.label) else none

def transitionStatement (c : Connection) : Statement :=
  .transition c.source c.target (transitionLabel? c)

def labelChars (c : Connection) : List Char :=
  if c.hasLabel then ' ' :: ':' :: ' ' :: (Text.oneLine c.label).toList else []

theorem toList_transitionText (c : Connection) : (transitionText c).toList =
    c.source.toList ++ ' ' :: '-' :: '-' :: '>' :: ' ' :: (c.target.toList ++ labelChars c) := by
  unfold transitionText labelChars
  dsimp only
  split <;> simp

theorem reads_label {c : Connection} (tight : Text.trimmed c.label = c.label) :
    Reads Reader.colonLabel (labelChars c) (transitionLabel? c) [] := by
  unfold labelChars transitionLabel?
  split
  · next shown =>
    have some : Text.oneLine c.label ≠ "" := by
      rw [Ne, Text.oneLine_eq_empty_iff tight]
      simpa [Connection.hasLabel] using shown
    have taken := @Reader.reads_colonLabel_blanks (Text.oneLine c.label) [' ']
      (Text.forall_mem_of_all rfl) (Text.trimmed_oneLine tight)
    rwa [Reader.nonEmpty, if_neg some] at taken
  · exact Reader.reads_colonLabel_none

theorem unbroken_labelChars (c : Connection) : '\n' ∉ labelChars c := by
  unfold labelChars
  split
  · simp [Text.not_mem_singleLine]
  · simp

theorem endsSolid_labelChars {c : Connection} (tight : Text.trimmed c.label = c.label) :
    EndsSolid (labelChars c) := by
  unfold labelChars
  split
  · next shown =>
    have tight := Text.trim_of_trimmed (Text.trimmed_oneLine tight)
    have some : (Text.oneLine c.label).toList ≠ [] := by
      rw [Connection.hasLabel, ← Text.isBlankText_oneLine, Bool.not_eq_true', ← Bool.not_eq_true,
        Text.isBlankText_iff, tight] at shown
      exact shown
    have solid : EndsSolid (Text.oneLine c.label).toList := fun d h =>
      Text.not_isBlank_of_getLast?_trim (tight.symm ▸ h)
    exact solid.append_of_ne_nil some [' ', ':', ' ']
  · simp [EndsSolid]

theorem reads_transition {c : Connection} (isSource : IsRef c.source) (isTarget : IsRef c.target)
    (tight : Text.trimmed c.label = c.label) : Reads transition
      (c.source.toList ++ ' ' :: '-' :: '-' :: '>' :: ' ' :: (c.target.toList ++ labelChars c))
      (transitionStatement c) [] := by
  have arrow (cs : List Char) : Reads (Reader.token "-->") ('-' :: '-' :: '>' :: cs) () cs :=
    Reader.reads_token "-->" cs
  have stops : Stops Text.isWordChar (labelChars c) := by
    unfold labelChars
    split <;> simp
    decide
  exact (reads_stateRef isSource (by simp; decide)).bind ((Reader.reads_space (by simp; decide)).bind
    ((arrow _).bind ((Reader.reads_space (isTarget.stops _)).bind
      ((reads_stateRef isTarget stops).bind ((reads_label tight).bind
        (Reader.reads_atEnd.bind (Reads.pure _ [])))))))

/-- An arrow is no name, so that what stands before it declares nothing. -/
theorem refuses_declare (isRef : IsRef source) (more : List Char) :
    Refuses declare (source.toList ++ ' ' :: '-' :: more) := by
  rcases isRef with word | rfl
  · have follows : Reader.Follows (' ' :: '-' :: more) := by
      refine ⟨List.cons_ne_nil _ _, by simp; decide, ?_⟩
      rw [List.dropWhile_cons_of_pos (by decide), List.dropWhile_cons_of_neg (by decide)]
      simp
      decide
    refine Reader.refuses_token_bind (by decide) word follows.stops (fun _ => ?_) fun _ _ first =>
      Reader.refuses_blanksAtWord first
    have noQuote : ¬ ['"'] <+: '-' :: more := by
      intro quote
      exact absurd (List.cons_prefix_cons.1 quote).1 (by decide)
    have noName : Refuses Reader.identifier ('-' :: more) :=
      Reader.refuses_identifier (by simp; decide)
    exact (Reader.reads_space1 (by simp; decide)).refuses_bind
      (Refuses.bind (((Reader.refuses_quoted noQuote).bind _).orElse_refuses (noName.map _)) _)
  · refine Refuses.bind (Reader.refuses_token ?_) _
    intro start
    exact absurd (List.cons_prefix_cons.1 start).1 (by decide)

/-- The line of a transition. -/
theorem says_transitionText {c : Connection} (isSource : IsRef c.source) (isTarget : IsRef c.target)
    (tight : Text.trimmed c.label = c.label) :
    Source.Says statement (transitionText c) (transitionStatement c) where
  first := by
    obtain ⟨d, cs, split, first⟩ := isSource.first
      (' ' :: '-' :: '-' :: '>' :: ' ' :: (c.target.toList ++ labelChars c))
    refine ⟨d, cs, (toList_transitionText c).trans split, ?_⟩
    rintro rfl
    exact first.elim (fun word => absurd word (by decide)) (by decide)
  unbroken := by
    simp [toList_transitionText, isSource.unbroken, isTarget.unbroken, unbroken_labelChars]
  tight := by
    have whole := (isTarget.endsSolid.append_of_ne_nil isTarget.ne_nil
      (c.source.toList ++ [' ', '-', '-', '>', ' '])).append (endsSolid_labelChars tight)
    rw [toList_transitionText]
    refine Text.trim_eq_self ?_ (show EndsSolid _ by simpa using whole)
    obtain ⟨d, cs, split, first⟩ := isSource.first
      (' ' :: '-' :: '-' :: '>' :: ' ' :: (c.target.toList ++ labelChars c))
    rw [split]
    intro x h
    obtain rfl : d = x := by simpa using h
    rcases first with word | rfl
    · exact Text.not_isBlank_of_isWordChar word
    · decide
  reads := by
    rw [toList_transitionText]
    have noBrace : ¬ "\x7d".toList <+: c.source.toList ++
        ' ' :: '-' :: '-' :: '>' :: ' ' :: (c.target.toList ++ labelChars c) := by
      obtain ⟨d, cs, split, first⟩ := isSource.first
        (' ' :: '-' :: '-' :: '>' :: ' ' :: (c.target.toList ++ labelChars c))
      rw [split]
      intro brace
      obtain ⟨rfl, -⟩ := List.cons_prefix_cons.1 brace
      exact first.elim (fun word => absurd word (by decide)) (by decide)
    exact (refuses_declare isSource _).orElse
      ((Refuses.seqRight (Refuses.seqRight (Reader.refuses_token noBrace) _) _).orElse
        (reads_transition isSource isTarget tight).orElse)

end DiagramText.States
