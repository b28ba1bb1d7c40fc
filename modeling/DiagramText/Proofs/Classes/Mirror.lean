import DiagramText.Proofs.Classes.Pointing

/-! A relation and its mirror image. A kind of relation with a reversed token can be written from
either end, each cardinality next to its class; both lines say the same, wherever their blanks stand.
What is read of a cardinality has its entities decoded. -/
namespace DiagramText.Classes

open Reader (Reads Stops)
open Text (IsWord)

variable {source target : String} {p : String × Pointing} {leftCardinality rightCardinality : Option String}

namespace Spacing

/-- The line of a relation, with whatever label behind a colon. -/
def line (s : Spacing) (left : String) (leftCardinality : Option String) (token : String)
    (rightCardinality : Option String) (right : String) (label : Option String) : List Char :=
  s.chars left leftCardinality token rightCardinality right (label.elim [] fun text => s.colon ++ ':' :: text.toList)

/-- What is trimmed off a line is trimmed off its label. -/
theorem trim_line (s : Spacing) (left : IsWord source) (right : IsWord target) (token : String) (label : Option String) :
    Text.trim (s.line source leftCardinality token rightCardinality target label) =
      s.chars source leftCardinality token rightCardinality target
        (label.elim [] fun text => s.colon ++ ':' :: Text.trimRight text.toList) := by
  cases label with
  | none =>
    have tight := left.trim_append (gapChars s.left leftCardinality s.before ++ (token.toList ++
      gapChars s.after rightCardinality s.right)) right.some (Text.trim_of_trimmed right.trimmed)
    simpa [line, chars] using tight
  | some text =>
    have tight := left.trim_append_cons (gapChars s.left leftCardinality s.before ++ (token.toList ++
      (gapChars s.after rightCardinality s.right ++ (target.toList ++ s.colon)))) (c := ':') (by decide) text.toList
    simpa [line, chars] using tight

theorem ofText?_line (s : Spacing) (left : IsWord source) (right : IsWord target) (there : p ∈ pointings)
    (leftFree : ∀ c ∈ leftCardinality, '"' ∉ c.toList) (rightFree : ∀ c ∈ rightCardinality, '"' ∉ c.toList)
    (label : Option String) :
    Statement.ofText? (s.line source leftCardinality p.1 rightCardinality target label) =
      some (p.2.statement source target (leftCardinality.map Text.decoded) (rightCardinality.map Text.decoded)
        (label.bind fun text => Reader.nonEmpty (Text.trimmed text))) := by
  have ended : Stops Text.isWordChar (label.elim [] fun text => s.colon ++ ':' :: Text.trimRight text.toList) ∧
      Reads Reader.colonLabel (label.elim [] fun text => s.colon ++ ':' :: Text.trimRight text.toList)
        (label.bind fun text => Reader.nonEmpty (Text.trimmed text)) [] := by
    cases label with
    | none => exact ⟨Reader.stops_nil _, Reader.reads_colonLabel_none⟩
    | some text =>
      have labelled := Reader.reads_colonLabel_text s.colonBlank (Text.trimRight text.toList)
      rw [Text.trim_trimRight] at labelled
      exact ⟨Text.stops_blanks s.colonBlank fun _ => (Reader.stops_cons _ ':' _).2 (by decide), labelled⟩
  rw [Statement.ofText?, trim_line s left right]
  exact Reader.whole?_of_reads (reads_statement left right there leftFree rightFree ended.1 ended.2)

end Spacing

/-- From either end of a relation the same is read: its kind, its classes in their order, and the
cardinality of each. -/
theorem ofText?_mirrored {r : Relation} {reversed : String} (mirrored : r.reversedToken? = some reversed)
    (left : IsWord source) (right : IsWord target) {sourceCardinality targetCardinality : Option String}
    (sourceFree : ∀ c ∈ sourceCardinality, '"' ∉ c.toList) (targetFree : ∀ c ∈ targetCardinality, '"' ∉ c.toList)
    (label : Option String) (s t : Spacing) :
    Statement.ofText? (s.line source sourceCardinality r.token targetCardinality target label) =
        some (.relation source target r (sourceCardinality.map Text.decoded) (targetCardinality.map Text.decoded)
          (label.bind fun text => Reader.nonEmpty (Text.trimmed text))) ∧
      Statement.ofText? (t.line target targetCardinality reversed sourceCardinality source label) =
        some (.relation source target r (sourceCardinality.map Text.decoded) (targetCardinality.map Text.decoded)
          (label.bind fun text => Reader.nonEmpty (Text.trimmed text))) :=
  ⟨s.ofText?_line left right r.mem_pointings sourceFree targetFree label,
    t.ofText?_line right left (Relation.reversed_mem_pointings mirrored) targetFree sourceFree label⟩

/-- A class that is called like the keyword, one that is called like the start of its token, and a
cardinality that looks like another relation. -/
theorem ofText?_mirrored_aggregation :
    Statement.ofText? (Spacing.usual.line "o" (some "1 --> *") "--o" none "class" (some " has : many")) =
        some (.relation "o" "class" .aggregation (some "1 --> *") none (some "has : many")) ∧
      Statement.ofText? (Spacing.usual.line "class" none "o--" (some "1 --> *") "o" (some " has : many")) =
        some (.relation "o" "class" .aggregation (some "1 --> *") none (some "has : many")) :=
  ofText?_mirrored (r := .aggregation) rfl (by decide) (by decide) (by decide) (by simp) (some " has : many") .usual .usual

/-- A cardinality is not always read as it stands between its quotes. -/
theorem ofText?_mirrored_entity :
    ¬ ∀ (r : Relation) (reversed : String), r.reversedToken? = some reversed → ∀ source target, IsWord source →
      IsWord target → ∀ sourceCardinality targetCardinality : Option String,
        (∀ c ∈ sourceCardinality, '"' ∉ c.toList) → (∀ c ∈ targetCardinality, '"' ∉ c.toList) →
        ∀ (label : Option String) (s t : Spacing), ∃ said : Option String,
          Statement.ofText? (s.line source sourceCardinality r.token targetCardinality target label) =
              some (.relation source target r sourceCardinality targetCardinality said) ∧
            Statement.ofText? (t.line target targetCardinality reversed sourceCardinality source label) =
              some (.relation source target r sourceCardinality targetCardinality said) := by
  intro all
  obtain ⟨said, same, -⟩ := all .inheritance "<|--" rfl "A" "B" (by decide) (by decide) (some "#quot;") none
    (by decide) (by simp) none .usual .usual
  have read : Statement.ofText? (Spacing.usual.line "A" (some "#quot;") "--|>" none "B" none) =
      some (.relation "A" "B" .inheritance (some "\"") none none) := by decide
  rw [show Relation.inheritance.token = "--|>" from rfl, read] at same
  simp at same

end DiagramText.Classes
