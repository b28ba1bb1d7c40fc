import DiagramText.Proofs.Graph.Contents
import DiagramText.Proofs.States.Formatting
import DiagramText.Proofs.Validation.Lines

/-! Printed state diagrams are valid source, as long as the brace behind every composite counts. The
label of a state stands in quotes, but a colon in it ends the part of the line that counts: the quotes
stay open to the end of that part, which leaves the brackets alone, and hides the brace. -/
namespace DiagramText.States

open Outline (Explores Forest Item)
open Text (IsWord)
open Validation (Silent Balanced CutsAtColon IsBalanced Level Opens)

/-! ### Declarations -/

variable {e : Element} {c : Connection}

theorem cutsAtColon : CutsAtColon (some .states) := .inr rfl

theorem noColon_encodeQuotes {text : String} (free : ':' ∉ text.toList) :
    ':' ∉ Text.encodeQuotes text.toList := fun h =>
  free (Text.mem_of_mem_singleLine (by decide) (Text.mem_singleLine_of_mem_encodeQuotes (by decide) h))

theorem silent_nameChars (word : IsWord e.id) : Silent false (nameChars e) := by
  have named := Validation.silent_word (f := false) word
  unfold nameChars
  split
  · exact named
  · have between : Silent false [' ', 'a', 's', ' '] := Validation.silent_of_all rfl
    exact (Validation.silent_quoted e.label).append (between.append named)

theorem noColon_nameChars (word : IsWord e.id) (free : ':' ∉ e.label.toList) : ':' ∉ nameChars e := by
  have named := word.noColon
  unfold nameChars
  split
  · exact named
  · simpa [Text.toList_quoted] using ⟨noColon_encodeQuotes free, named⟩

theorem silent_pseudoChars (p : Option Pseudo) : Silent false (pseudoChars p) ∧ ':' ∉ pseudoChars p := by
  cases p with
  | none => exact ⟨Validation.silent_nil, by decide⟩
  | some p => cases p <;> exact ⟨Validation.silent_of_all rfl, by decide⟩

/-- Quotes that a colon cuts off hide what is before it. -/
theorem balanced_cutQuote {text : String} (colon : ':' ∈ Text.encodeQuotes text.toList) (rest : List Char) :
    Balanced false (('"' :: (Text.encodeQuotes text.toList ++ rest)).takeWhile (· != ':')) := by
  have cut : (Text.encodeQuotes text.toList ++ rest).takeWhile (· != ':') =
      (Text.encodeQuotes text.toList).takeWhile (· != ':') := by
    rw [List.takeWhile_append]
    split
    · next whole =>
      have all := (List.takeWhile_prefix (· != ':')).eq_of_length whole
      rw [← all] at colon
      exact absurd (List.all_eq_true.1 List.all_takeWhile _ colon) (by decide)
    · rfl
  rw [List.takeWhile_cons_of_pos (by decide), cut]
  exact Validation.balanced_openQuote fun h =>
    Text.not_mem_encodeQuotes text.toList ((List.takeWhile_prefix _).subset h)

/-- A declaration without a block is balanced, whatever the label says. -/
theorem isBalanced_declarationText (word : IsWord e.id) : IsBalanced (some .states) (declarationText e) := by
  have start : Silent false "state ".toList := Validation.silent_of_all rfl
  obtain ⟨silentMark, noColon⟩ := silent_pseudoChars (pseudo? e)
  have split : (declarationText e).toList = "state ".toList ++ (nameChars e ++ pseudoChars (pseudo? e)) :=
    toList_declarationText e
  refine Validation.isBalanced_of_front cutsAtColon split (by decide) start ?_
  by_cases colon : ':' ∈ nameChars e
  · have shown : ':' ∈ Text.encodeQuotes e.label.toList ∧ nameChars e =
        '"' :: (Text.encodeQuotes e.label.toList ++ '"' :: ' ' :: 'a' :: 's' :: ' ' :: e.id.toList) := by
      unfold nameChars at colon ⊢
      split at colon
      · exact absurd colon (word.noColon)
      · next named =>
        rw [if_neg named]
        simpa [Text.toList_quoted, word.noColon] using colon
    rw [shown.2, List.cons_append, List.append_assoc]
    exact balanced_cutQuote shown.1 _
  · have free : ':' ∉ nameChars e ++ pseudoChars (pseudo? e) := by
      rw [List.mem_append, not_or]
      exact ⟨colon, noColon⟩
    rw [Text.takeWhile_eq_self_of_not_mem free]
    exact ((silent_nameChars word).append silentMark).balanced

/-- A composite opens its block where no colon in its label hides the brace. -/
theorem opens_declarationText (word : IsWord e.id) (free : ':' ∉ e.label.toList) :
    Opens (some .states) (declarationText e ++ " \x7b") := by
  have start : Silent false "state ".toList := Validation.silent_of_all rfl
  obtain ⟨silentMark, noColon⟩ := silent_pseudoChars (pseudo? e)
  have silent : Silent false ("state ".toList ++ (nameChars e ++ (pseudoChars (pseudo? e) ++ [' ']))) :=
    start.append ((silent_nameChars word).append (silentMark.append Validation.silent_space))
  have split : (declarationText e ++ " \x7b").toList =
      ("state ".toList ++ (nameChars e ++ (pseudoChars (pseudo? e) ++ [' ']))) ++ ['\x7b'] := by
    simp [toList_declarationText]
  have whole : ':' ∉ (declarationText e ++ " \x7b").toList := by
    rw [split]
    simpa using ⟨noColon_nameChars word free, noColon⟩
  refine Validation.opens_of_silent split (by decide) (by decide) silent fun b n => ?_
  rw [cutsAtColon.scanLine_trim, Text.takeWhile_eq_self_of_not_mem whole]

/-! ### Transitions -/

theorem silent_ref {s : String} (isRef : IsRef s) : Silent false s.toList ∧ ':' ∉ s.toList := by
  rcases isRef with word | rfl
  · exact ⟨Validation.silent_word word, word.noColon⟩
  · have star : Silent false ['*'] := Validation.silent_of_all rfl
    exact ⟨star.square, by decide⟩

theorem isBalanced_transitionText (source : IsRef c.source) (target : IsRef c.target) :
    '\n' ∉ (transitionText c).toList ∧ IsBalanced (some .states) (transitionText c) := by
  obtain ⟨sourceSilent, sourceFree⟩ := silent_ref source
  obtain ⟨targetSilent, targetFree⟩ := silent_ref target
  have arrow : Silent false " --> ".toList := Validation.silent_of_all rfl
  have silent : Silent false (c.source.toList ++ (" --> ".toList ++ c.target.toList)) :=
    sourceSilent.append (arrow.append targetSilent)
  have split : (transitionText c).toList =
      (c.source.toList ++ (" --> ".toList ++ c.target.toList)) ++ labelChars c := by
    simp [toList_transitionText]
  have label : Balanced false ((labelChars c).takeWhile (· != ':')) := by
    unfold labelChars
    split
    · simpa using Validation.silent_space.balanced
    · exact Validation.silent_nil.balanced
  refine ⟨?_, Validation.isBalanced_of_front cutsAtColon split (by simpa using ⟨sourceFree, targetFree⟩)
    silent label⟩
  rw [split]
  simpa using ⟨source.unbroken, target.unbroken, unbroken_labelChars c⟩

/-! ### The source -/

/-- No colon in the label of a composite. -/
def IsEven (g : Graph) : Prop := ∀ e ∈ g.elements.values, e.kind = .container → ':' ∉ e.label.toList

/-- An outline is level where its leaves are and its containers open what is closed behind them. -/
theorem level_items {t : Option Validation.Declared} {line : Item → String} {table : Table Element}
    {skip : Element → Bool} {visited keys : List String} {f : Forest} (layout : Layout)
    (explored : Explores table skip visited keys f)
    (leaf : ∀ e ∈ table.values, skip e = false → ∀ depth, Level t [line (.leaf e depth)])
    (opens : ∀ e ∈ table.values, skip e = false → e.kind = .container → ∀ depth,
      '\n' ∉ (line (.opens e depth)).toList ∧ Opens t (line (.opens e depth)))
    (closes : ∀ depth, line (.closes depth) = layout.indented depth "\x7d") (depth : Nat) :
    Level t ((f.items depth).map line) := by
  induction explored generalizing depth with
  | done => exact Validation.level_nil
  | absent _ _ ih => exact ih depth
  | passed _ _ _ ih => exact ih depth
  | leaf found kept _ _ _ ih => exact (leaf _ (Table.mem_values_of_get? found) kept depth).append (ih depth)
  | group found kept _ box _ _ inner outer =>
    obtain ⟨free, opened⟩ := opens _ (Table.mem_values_of_get? found) kept box depth
    have block := (Validation.level_block free opened (inner (depth + 1)) layout depth).append (outer depth)
    simpa [Forest.items, closes] using block

theorem findings_print {d : Draft} (sound : d.Sound) (even : IsEven d.graph) (rules : Validation.Rules)
    (layout : Layout) (m : Metadata) : (Validation.scan rules (print layout d.graph m)).findings = [] := by
  have word : ∀ e ∈ d.graph.elements.values, decide (e.id = terminal) = false → IsWord e.id :=
    fun e there other => (sound.settled.states e there).ref.resolve_right (by simpa using other)
  obtain ⟨f, explored⟩ := Outline.exists_explores d.graph.elements (fun e => e.id = terminal) []
    (Outline.rootKeys d.graph.elements fun e => e.id = terminal)
  have outline : Level (some .states)
      ((Outline.ofElements d.graph.elements fun e => e.id = terminal).map (itemLine layout)) := by
    rw [Outline.ofElements_of_explores explored]
    refine level_items layout explored (fun e there other depth => ?_) (fun e there other box depth => ?_)
      (fun depth => rfl) 1
    · have named := word e there other
      exact Validation.level_of_balanced (List.forall_mem_singleton.2
        ⟨Source.unbroken_indented (says_leaf named 1).unbroken layout depth,
          (isBalanced_declarationText named).indented layout depth⟩)
    · have named := word e there other
      exact ⟨Source.unbroken_indented (says_opens named 1).unbroken layout depth,
        (opens_declarationText named (even e there box)).indented layout depth⟩
  have transitions : Level (some .states)
      (d.graph.connections.values.map fun c => layout.indented 1 (transitionText c)) := by
    refine Validation.level_indented layout (fun c => ⟨1, rfl⟩) fun c there => ?_
    obtain ⟨source, target⟩ := Graph.ends_of_joins sound.settled.planted.keyed
      (fun e h => (sound.settled.states e h).ref) (sound.closed c there)
    exact isBalanced_transitionText source target
  exact Validation.findings_source rules layout m isHeader rfl (by decide) (outline.append transitions)

end DiagramText.States
