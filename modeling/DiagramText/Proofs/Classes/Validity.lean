import DiagramText.Proofs.Classes.Soundness
import DiagramText.Proofs.Validation.Lines

/-! Printed class diagrams are valid source, but for what stands bare: the members and stereotypes of
classes, a line each, and the labels of relations. Names, tokens and quoted text are silent, and the
brace behind the name of a class is closed behind its members. -/
namespace DiagramText.Classes

open Text (IsWord)
open Validation (Silent Balanced IsBalanced Level Opens)

variable {e : Element} {c : Connection}

/-! ### Classes -/

theorem silent_labelChars (label : Option String) :
    Silent false (labelChars label) ∧ '\n' ∉ labelChars label := by
  cases label with
  | none => exact ⟨Validation.silent_nil, List.not_mem_nil⟩
  | some l => exact ⟨(Validation.silent_quoted l).square, by simpa [labelChars] using Text.not_mem_quoted l⟩

theorem silent_headText (word : IsWord e.id) :
    Silent false (headText e).toList ∧ '\n' ∉ (headText e).toList := by
  obtain ⟨silent, unbroken⟩ := silent_labelChars (shownLabel e)
  have start : Silent false "class ".toList := Validation.silent_of_all rfl
  rw [toList_headText]
  exact ⟨start.append ((Validation.silent_word word).append silent), by simpa using ⟨word.unbroken, unbroken⟩⟩

theorem opens_headText (word : IsWord e.id) : Opens (some .classes) (headText e ++ " \x7b") := by
  have silent : Silent false ((headText e).toList ++ [' ']) :=
    (silent_headText word).1.append Validation.silent_space
  have split : (headText e ++ " \x7b").toList = ((headText e).toList ++ [' ']) ++ ['\x7b'] := by simp
  rw [toList_headText] at silent split
  exact Validation.opens_of_silent split (by decide) (by decide) silent
    fun b n => Validation.scanLine_trim _ b n

theorem unbroken_bodyTexts : ∀ line ∈ bodyTexts e, '\n' ∉ line.toList := by
  unfold bodyTexts
  dsimp only
  rw [List.forall_mem_append, List.forall_mem_map]
  refine ⟨fun line there => ?_, fun text _ => ?_⟩
  · obtain ⟨text, -, rfl⟩ := Option.map_eq_some_iff.1 (Option.mem_toList.1 there)
    simp [Text.not_mem_singleLine]
  · rw [Text.toList_oneLine]
    exact Text.not_mem_singleLine text.toList

/-- Where every line of its body is balanced, so is a class, whether it has braces or not. -/
theorem level_classLines (word : IsWord e.id) (members : ∀ line ∈ bodyTexts e, IsBalanced (some .classes) line)
    (layout : Layout) : Level (some .classes) (classLines layout e) := by
  obtain ⟨silent, unbroken⟩ := silent_headText word
  have inner : Level (some .classes) ((bodyTexts e).map (layout.indented 2)) :=
    Validation.level_indented layout (fun line => ⟨2, rfl⟩) fun line there =>
      ⟨unbroken_bodyTexts line there, members line there⟩
  unfold classLines
  split
  · have balanced : IsBalanced (some .classes) (headText e) :=
      Validation.isBalanced_of_whole (fun _ => rfl) silent.balanced
    exact Validation.level_of_balanced (List.forall_mem_singleton.2
      ⟨Source.unbroken_indented unbroken layout 1, balanced.indented layout 1⟩)
  · have opened : '\n' ∉ (headText e ++ " \x7b").toList := by simpa using unbroken
    exact Validation.level_block (Source.unbroken_indented opened layout 1)
      ((opens_headText word).indented layout 1) inner layout 1

/-! ### Relations -/

theorem silent_cardinalityChars (cardinality : Option String) : Silent false (cardinalityChars cardinality) := by
  cases cardinality with
  | none => exact Validation.silent_nil
  | some s => exact Validation.silent_space.append (Validation.silent_quoted s)

/-- What stands in front of the label of a relation is silent. -/
theorem silent_relationChars {source target : String} (word : IsWord source) (word' : IsWord target)
    (r : Relation) (left right : Option String) : Silent false (relationChars source target r left right []) ∧
      '\n' ∉ relationChars source target r left right [] := by
  have token : Silent false r.token.toList ∧ '\n' ∉ r.token.toList := by
    cases r <;> exact ⟨Validation.silent_of_all rfl, by decide⟩
  constructor
  · exact (Validation.silent_word word).append ((silent_cardinalityChars left).append
      (Validation.silent_space.append (token.1.append ((silent_cardinalityChars right).append
        (Validation.silent_space.append ((Validation.silent_word word').append Validation.silent_nil))))))
  · simpa [relationChars] using
      ⟨word.unbroken, not_mem_cardinalityChars left, token.2, not_mem_cardinalityChars right, word'.unbroken⟩

/-- The label, which stands at the end, is all of a relation that could be out of balance. -/
theorem isBalanced_relationText (source : IsWord c.source) (target : IsWord c.target)
    (label : Balanced false (Text.oneLine c.label).toList) :
    '\n' ∉ (relationText c).toList ∧ IsBalanced (some .classes) (relationText c) := by
  let ending := if c.hasLabel then ": " ++ Text.oneLine c.label else ""
  have balanced : Balanced false ending.toList ∧ '\n' ∉ ending.toList := by
    unfold ending
    split
    · have colon : Silent false ": ".toList := Validation.silent_of_all rfl
      rw [String.toList_append]
      exact ⟨colon.append_balanced label, by simp [Text.not_mem_singleLine]⟩
    · exact ⟨Validation.silent_nil.balanced, by decide⟩
  obtain ⟨silent, unbroken⟩ := silent_relationChars source target (Relation.ofKey c.kind)
    (c.property? sourceCardinalityKey) (c.property? targetCardinalityKey)
  have split : (relationText c).toList = relationChars c.source c.target (Relation.ofKey c.kind)
      (c.property? sourceCardinalityKey) (c.property? targetCardinalityKey) [] ++ ending.toList := by
    simp [relationText, relationChars, toList_cardinalityText, ending]
  refine ⟨?_, Validation.isBalanced_of_whole (fun _ => rfl) ?_⟩ <;> rw [split]
  · rw [List.mem_append, not_or]
    exact ⟨unbroken, balanced.2⟩
  · exact silent.append_balanced balanced.1

/-! ### The source -/

/-- Members and stereotypes are balanced, a line each, and so are the labels of relations. -/
structure IsEven (g : Graph) : Prop where
  members : ∀ e ∈ g.elements.values, ∀ line ∈ bodyTexts e, IsBalanced (some .classes) line
  labels : ∀ c ∈ g.connections.values, Balanced false (Text.oneLine c.label).toList

theorem findings_print {g : Graph} (read : IsRead g) (keyed : g.Keyed) (closed : g.Closed)
    (even : IsEven g) (rules : Validation.Rules) (layout : Layout) (m : Metadata) :
    (Validation.scan rules (print layout g m)).findings = [] := by
  have word : ∀ e ∈ g.elements.values, IsWord e.id := fun e there => (read.elements e there).word
  have classes : Level (some .classes) (g.elements.values.flatMap (classLines layout)) :=
    Validation.level_flatMap fun e there => level_classLines (word e there) (even.members e there) layout
  have relations : Level (some .classes)
      (g.connections.values.map fun c => layout.indented 1 (relationText c)) := by
    refine Validation.level_indented layout (fun c => ⟨1, rfl⟩) fun c there => ?_
    obtain ⟨source, target⟩ := Graph.ends_of_joins keyed.elements word (closed c there)
    exact isBalanced_relationText source target (even.labels c there)
  exact Validation.findings_source rules layout m isHeader rfl (by decide) (classes.append relations)

end DiagramText.Classes
