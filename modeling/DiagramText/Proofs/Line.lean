import DiagramText.Proofs.Reader
import DiagramText.Proofs.Source

/-! Printed lines that say one statement: a reader takes all of the line, and neither the blanks
around it nor the way it is taken out of the source make a difference. -/
namespace DiagramText

namespace Text

/-- A text that does not end in a blank. -/
def EndsSolid (cs : List Char) : Prop := ∀ c ∈ cs.getLast?, Text.isBlank c = false

instance (cs : List Char) : Decidable (EndsSolid cs) :=
  decidable_of_iff (cs.getLast?.all fun c => !isBlank c) <| by
    rw [EndsSolid]
    cases cs.getLast? <;> simp

theorem EndsSolid.append {xs ys : List Char} (before : EndsSolid xs) (after : EndsSolid ys) :
    EndsSolid (xs ++ ys) := by
  intro c h
  rw [List.getLast?_append] at h
  cases last : ys.getLast? with
  | none =>
    rw [last] at h
    exact before c h
  | some d =>
    rw [last] at h
    exact after c (last.trans h)

theorem EndsSolid.append_of_ne_nil {ys : List Char} (some : ys ≠ []) (after : EndsSolid ys) (xs : List Char) :
    EndsSolid (xs ++ ys) := by
  intro c h
  rw [List.getLast?_append, List.getLast?_eq_some_getLast some] at h
  exact after c ((List.getLast?_eq_some_getLast some).trans h)

theorem IsWord.endsSolid {s : String} (word : IsWord s) : EndsSolid s.toList :=
  fun c h => not_isBlank_of_isWordChar (word.chars c (List.mem_of_getLast? h))

/-- What starts with a word and ends in no blank is trimmed. -/
theorem IsWord.trim_of_endsSolid {s : String} (word : IsWord s) {rest : List Char}
    (last : EndsSolid (s.toList ++ rest)) : Text.trim (s.toList ++ rest) = s.toList ++ rest := by
  refine trim_eq_self (fun c first => ?_) last
  obtain ⟨d, ds, split, letter⟩ := word.first rest
  rw [split] at first
  obtain rfl := Option.some.inj first
  exact not_isBlank_of_isWordChar letter

end Text

namespace Source

variable {α : Type} {statement : Reader α} {line : String} {s : α}

/-- A line of source by itself. -/
structure IsLine (line : String) : Prop where
  first : ∃ c cs, line.toList = c :: cs ∧ c ≠ '%'
  unbroken : '\n' ∉ line.toList
  tight : Text.trim line.toList = line.toList

/-- A line that is read as a statement. -/
structure Says (statement : Reader α) (line : String) (s : α) : Prop extends IsLine line where
  reads : Reader.Reads statement line.toList s []

theorem IsLine.isStatement (isLine : IsLine line) : IsStatement line.toList := by
  obtain ⟨c, cs, split, noMark⟩ := isLine.first
  refine ⟨isLine.unbroken, ?_, ?_⟩ <;> rw [isLine.tight, split]
  · exact List.cons_ne_nil c cs
  · intro comment
    exact noMark (List.cons_prefix_cons.1 comment).1.symm

theorem IsLine.trimmed (isLine : IsLine line) : Text.trimmed line = line := by
  rw [Text.trimmed, isLine.tight, String.ofList_toList]

theorem IsLine.bodyLines (isLine : IsLine line) : bodyLines line = [line] := by
  rw [bodyLines_of_statement isLine.isStatement, isLine.trimmed]

theorem Says.whole? (said : Says statement line s) :
    statement.whole? (Text.trim line.toList) = some s := by
  rw [said.tight]
  exact Reader.whole?_of_reads said.reads

/-- Taken out of the source, a line is as it was before it was indented. -/
theorem IsLine.trimmed_indented (isLine : IsLine line) (l : Layout) (depth : Nat) :
    Text.trimmed (l.indented depth line) = line := by
  rw [Source.trimmed_indented, isLine.trimmed]

/-- Indented lines are statements, and are taken out of the source as they were. -/
theorem indented_lines {β : Type} {line text : β → String} {bs : List β} (l : Layout)
    (indented : ∀ b, ∃ depth, line b = l.indented depth (text b)) (isLine : ∀ b ∈ bs, IsLine (text b)) :
    (∀ t ∈ bs.map line, IsStatement t.toList) ∧ (bs.map line).map Text.trimmed = bs.map text := by
  rw [List.forall_mem_map, List.map_map]
  refine ⟨fun b there => ?_, List.map_congr_left fun b there => ?_⟩
  · obtain ⟨depth, same⟩ := indented b
    rw [same]
    exact (isLine b there).isStatement.indented l depth
  · obtain ⟨depth, same⟩ := indented b
    rw [Function.comp_apply, same, (isLine b there).trimmed_indented]

/-- A line of two ends neither of which is blank. -/
theorem trim_of_ends {c d : Char} {cs : List Char} (first : Text.isBlank c = false)
    (last : Text.isBlank d = false) : Text.trim (c :: (cs ++ [d])) = c :: (cs ++ [d]) :=
  Text.trim_cons_append c cs first (List.cons_ne_nil _ _)
    (Text.trim_eq_self (by simpa using last) (by simpa using last))

end Source
end DiagramText
