import DiagramText.Proofs.Graph.Contents
import DiagramText.Proofs.Reading
import DiagramText.Proofs.Sequence.Formatting
import DiagramText.Proofs.Validation.Lines

/-! Printed sequence diagrams are valid source, but for the names that participants are shown under.
Those stand bare and count up to a colon; texts of messages and notes stand behind one, and what is in
front of it are words, arrows and commas. -/
namespace DiagramText.Sequence

open DiagramText.Graph (Contents)
open Text (IsWord)
open Validation (Silent Balanced CutsAtColon IsBalanced Level)

/-! ### What is read -/

/-- A participant or note as statements make it. -/
structure IsRead (e : Element) : Prop where
  word : IsWord e.id
  participants : ∀ id ∈ e.listed participantsKey, IsWord id

namespace Draft

variable {now : Instant} {g : Graph} {d : Draft} {id : String}

abbrev Sound (g : Graph) : Prop := Contents IsRead (fun _ => True) g

theorem sound_ensure (sound : Sound g) (word : IsWord id) : Sound (ensure now g id) :=
  Contents.ensure sound fun _ => ⟨word, fun _ none => absurd none List.not_mem_nil⟩

theorem isRead_recast {e : Element} (read : IsRead e) (label : Option String) (role : Role) :
    IsRead (recast label role e) := by
  have apart : participantsKey ≠ roleKey := by decide
  have same : (recast label role e).listed participantsKey = e.listed participantsKey := by
    simp [Element.listed, recast, Element.setProperty, Table.get?_insert, apart]
  exact ⟨read.word, same ▸ read.participants⟩

theorem isRead_newNote (step : Nat) (placement : Placement) {participants : List String}
    (words : ∀ id ∈ participants, IsWord id) (text : String) :
    IsRead (newNote now g step placement participants text) := by
  have apart : participantsKey ≠ orderKey := by decide
  have same : (newNote now g step placement participants text).listed participantsKey = participants := by
    simp [Element.listed, newNote, Element.setProperty, Element.moveTo, Table.get?_insert, apart]
  exact ⟨Text.IsWord.append_toString (by decide) _, same.symm ▸ words⟩

theorem sound_apply (sound : Sound d.graph) {s : Statement} (said : s.IsSound) :
    Sound (d.apply now s).graph := by
  cases s with
  | participant id label role =>
    exact Contents.modifyElement (sound_ensure sound said.1) fun e read => isRead_recast read label role
  | message source target arrow label =>
    exact Contents.connect (sound_ensure (sound_ensure sound said.1) said.2.1) fun _ => trivial
  | note placement participants text =>
    obtain ⟨-, words, -⟩ := said
    have entered : Sound (participants.foldl (ensure now) d.graph) :=
      List.foldlRecOn participants _ sound fun _ before id there => sound_ensure before (words id there)
    exact Contents.addElement entered (isRead_newNote _ placement words text)

end Draft

theorem sound_read (now : Instant) (lines : List String) : Draft.Sound (read now lines) := by
  have folded (d : Draft) (sound : Draft.Sound d.graph) :
      Draft.Sound (lines.foldl (Draft.readLine now) d).graph := by
    induction lines generalizing d with
    | nil => exact sound
    | cons line lines ih =>
      refine ih _ ?_
      unfold Draft.readLine
      split
      · next s read => exact Draft.sound_apply sound (isSound_of_ofText? read)
      · exact sound
  exact folded .empty Graph.contents_empty

/-! ### The lines -/

variable {e : Element} {c : Connection}

theorem cutsAtColon : CutsAtColon (some .sequence) := .inl rfl

/-- Words between blanks, in front of a name or alone. -/
theorem silent_declared (role : Role) (word : IsWord e.id) {rest : List Char} (silent : Silent false rest) :
    Silent false (role.keyword.toList ++ ' ' :: (e.id.toList ++ rest)) :=
  (Validation.silent_word (isWord_keyword role)).append
    (Validation.silent_space.append ((Validation.silent_word word).append silent))

/-- The name that is shown is all of a declaration that could be out of balance. -/
theorem isBalanced_declarationText (word : IsWord e.id)
    (label : Balanced false ((Text.oneLine e.label).toList.takeWhile (· != ':'))) :
    '\n' ∉ (declarationText e).toList ∧ IsBalanced (some .sequence) (declarationText e) := by
  let role := Role.ofKeyword (e.property? roleKey)
  have keyword := isWord_keyword role
  have free : ':' ∉ role.keyword.toList ∧ ':' ∉ e.id.toList := ⟨keyword.noColon, word.noColon⟩
  unfold declarationText
  dsimp only
  split
  · have split : (role.keyword ++ " " ++ e.id).toList =
        (role.keyword.toList ++ ' ' :: (e.id.toList ++ [])) ++ [] := by simp
    refine ⟨?_, Validation.isBalanced_of_front cutsAtColon split (by simpa using free)
      (silent_declared role word Validation.silent_nil) Validation.silent_nil.balanced⟩
    rw [split]
    simpa using ⟨keyword.unbroken, word.unbroken⟩
  · have split : (role.keyword ++ " " ++ e.id ++ " as " ++ Text.oneLine e.label).toList =
        (role.keyword.toList ++ ' ' :: (e.id.toList ++ " as ".toList)) ++ (Text.oneLine e.label).toList := by
      simp
    refine ⟨?_, Validation.isBalanced_of_front cutsAtColon split (by simpa using free)
      (silent_declared role word (Validation.silent_of_all rfl)) label⟩
    rw [split]
    simpa using ⟨keyword.unbroken, word.unbroken, Text.not_mem_singleLine e.label.toList⟩

theorem isBalanced_messageText (source : IsWord c.source) (target : IsWord c.target) :
    '\n' ∉ (messageText c).toList ∧ IsBalanced (some .sequence) (messageText c) := by
  let arrow := Arrow.ofKey c.kind
  have token : Silent false arrow.token.toList ∧ ':' ∉ arrow.token.toList := by
    cases arrow <;> exact ⟨Validation.silent_of_all rfl, by decide⟩
  have free : ':' ∉ c.source.toList ++ (arrow.token.toList ++ c.target.toList) := by
    simpa using ⟨source.noColon, token.2, target.noColon⟩
  have front : Silent false (c.source.toList ++ (arrow.token.toList ++ c.target.toList)) :=
    (Validation.silent_word source).append
      (token.1.append (Validation.silent_word target))
  have unbroken := unbroken_token arrow
  unfold messageText
  dsimp only
  split
  · have split : (c.source ++ arrow.token ++ c.target ++ ": " ++ Text.oneLine c.label).toList =
        (c.source.toList ++ (arrow.token.toList ++ c.target.toList)) ++
          ':' :: ' ' :: (Text.oneLine c.label).toList := by simp
    refine ⟨?_, Validation.isBalanced_of_front cutsAtColon split free front
      (by simpa using Validation.silent_nil.balanced)⟩
    rw [split]
    simpa using ⟨source.unbroken, unbroken, target.unbroken, Text.not_mem_singleLine c.label.toList⟩
  · have split : (c.source ++ arrow.token ++ c.target).toList =
        (c.source.toList ++ (arrow.token.toList ++ c.target.toList)) ++ [] := by simp
    refine ⟨?_, Validation.isBalanced_of_front cutsAtColon split free front
      Validation.silent_nil.balanced⟩
    rw [split]
    simpa using ⟨source.unbroken, unbroken, target.unbroken⟩

theorem isBalanced_noteText (read : IsRead e) {line : String} (written : noteText? e = some line) :
    '\n' ∉ line.toList ∧ IsBalanced (some .sequence) line := by
  let placement := Placement.ofText (e.property? placementKey)
  have placed : Silent false placement.text.toList ∧ ':' ∉ placement.text.toList ∧
      '\n' ∉ placement.text.toList := by
    cases placement <;> exact ⟨Validation.silent_of_all rfl, by decide, by decide⟩
  let names := (",".intercalate (e.listed participantsKey)).toList
  have plain : ∀ c ∈ names, c ∉ Validation.marks false := by
    intro c h
    rcases forall_mem_names read.participants c h with rfl | word
    · decide
    · exact Validation.not_mem_marks_of_isWordChar word
  have noColon : ':' ∉ names := fun h => absurd (forall_mem_names read.participants _ h) (by decide)
  have unbroken : '\n' ∉ names := unbroken_names read.participants
  have split : line.toList = ("Note ".toList ++ (placement.text.toList ++ ' ' :: names)) ++
      ':' :: ' ' :: (Text.oneLine e.label).toList := by
    unfold noteText? at written
    split at written
    · cases written
    · cases written
      simp [names, placement]
  have front : Silent false ("Note ".toList ++ (placement.text.toList ++ ' ' :: names)) :=
    (Validation.silent_of_all rfl).append
      (placed.1.append (Validation.silent_space.append (Validation.silent_of_plain plain)))
  refine ⟨?_, Validation.isBalanced_of_front cutsAtColon split (by simpa using ⟨placed.2.1, noColon⟩) front
    (by simpa using Validation.silent_nil.balanced)⟩
  rw [split]
  simpa using ⟨placed.2.2, unbroken, Text.not_mem_singleLine e.label.toList⟩

/-! ### The source -/

/-- The names that participants are shown under are balanced, as far as they count. -/
def IsEven (g : Graph) : Prop := ∀ e ∈ g.elements.values, e.kind ≠ .note →
  Balanced false ((Text.oneLine e.label).toList.takeWhile (· != ':'))

theorem findings_print {g : Graph} (read : Draft.Sound g) (keyed : g.Keyed) (closed : g.Closed)
    (even : IsEven g) (rules : Validation.Rules) (layout : Layout) (m : Metadata) :
    (Validation.scan rules (print layout g m)).findings = [] := by
  have declared : Level (some .sequence)
      ((g.elements.values.filter fun e => e.kind ≠ .note).map fun e =>
        layout.indented 1 (declarationText e)) := by
    refine Validation.level_indented layout (fun e => ⟨1, rfl⟩) fun e there => ?_
    obtain ⟨among, kind⟩ := List.mem_filter.1 there
    exact isBalanced_declarationText (read.elements e among).word (even e among (by simpa using kind))
  have happening : Level (some .sequence)
      ((((steps g).mergeSort fun a b => a.1 ≤ b.1).filterMap (·.2)).map (layout.indented 1)) := by
    refine Validation.level_indented layout (fun e => ⟨1, rfl⟩) fun line there => ?_
    obtain ⟨step, among, written⟩ := List.mem_filterMap.1 there
    rw [List.mem_mergeSort, steps, List.mem_append] at among
    rcases among with message | note
    · obtain ⟨c, there, rfl⟩ := List.mem_map.1 message
      obtain ⟨source, target⟩ := Graph.ends_of_joins keyed.elements (fun e h => (read.elements e h).word)
        (closed c there)
      obtain rfl := Option.some.inj written
      exact isBalanced_messageText source target
    · obtain ⟨e, there, rfl⟩ := List.mem_map.1 note
      exact isBalanced_noteText (read.elements e (List.mem_filter.1 there).1) written
  exact Validation.findings_source rules layout m isHeader rfl (by decide) (declared.append happening)

end DiagramText.Sequence
