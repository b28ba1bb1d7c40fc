import DiagramText.Proofs.Reader

/-! Keywords that turn out to be names. A keyword is taken off the front of an id, and what it wants
behind it is not there. -/
namespace DiagramText.Reader

open Text (IsWord)

variable {id : String} {rest : List Char}

/-- A keyword is refused at an id, if what comes after it is refused behind the keyword: both where
the id is the keyword and where it goes on. -/
theorem refuses_token_bind {α : Type} {keyword : String} {after : Unit → Reader α}
    (plain : keyword.toList.all Text.isWordChar) (word : IsWord id)
    (stops : Stops Text.isWordChar rest) (same : id = keyword → Refuses (after ()) rest)
    (longer : ∀ c cs, Text.isWordChar c → Refuses (after ()) (c :: cs)) :
    Refuses (token keyword >>= after) (id.toList ++ rest) := by
  by_cases starts : keyword.toList <+: id.toList ++ rest
  · obtain ⟨more, split⟩ := prefix_of_stops (List.all_eq_true.1 plain) stops starts
    rw [← split, List.append_assoc]
    refine (reads_token keyword _).refuses_bind ?_
    cases more with
    | nil =>
      rw [List.append_nil, String.toList_inj] at split
      exact same split.symm
    | cons c more =>
      have first : c ∈ id.toList := by simp [← split]
      exact longer c _ (word.chars c first)
  · exact (refuses_token starts).bind _

/-- What may follow an id on a printed line: no letter, neither at once nor after blanks. -/
structure Follows (rest : List Char) : Prop where
  some : rest ≠ []
  stops : Stops Text.isWordChar rest
  gap : Stops Text.isWordChar (rest.dropWhile Text.isInlineBlank)

/-- After the blanks that a keyword wants, the next word is not there. -/
theorem refuses_afterBlanks {α : Type} {next : Unit → Reader α} (follows : Follows rest)
    (refused : Stops Text.isWordChar (rest.dropWhile Text.isInlineBlank) →
      Refuses (next ()) (rest.dropWhile Text.isInlineBlank)) :
    Refuses (inlineBlanks1 >>= next) rest := by
  by_cases blank : rest.takeWhile Text.isInlineBlank = []
  · refine Refuses.bind (Refuses.bind ?_ _) _
    exact if_pos blank
  · have taken : Reads (run1 Text.isInlineBlank) rest (rest.takeWhile Text.isInlineBlank)
        (rest.dropWhile Text.isInlineBlank) := if_neg blank
    exact Reads.refuses_bind (taken.bind (Reads.pure () _)) (refused follows.gap)

theorem refuses_blanksAtWord {α : Type} {next : Unit → Reader α} {c : Char} {cs : List Char}
    (first : Text.isWordChar c) : Refuses (inlineBlanks1 >>= next) (c :: cs) :=
  Refuses.bind (refuses_inlineBlanks1
    (by simp [Text.isInlineBlank_eq_false_of_isWordChar first])) _

end DiagramText.Reader
