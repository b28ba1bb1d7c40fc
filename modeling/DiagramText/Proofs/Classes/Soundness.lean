import DiagramText.Proofs.Classes.Formatting
import DiagramText.Proofs.Graph.Contents
import DiagramText.Proofs.Reader.Results

/-! What is known of a class diagram that is read, whatever its lines say. Classes are named by words,
their members are of the kind that their texts show, and what was read in quotes has no entity left
in it. One statement preserves all of it, and so does a run. -/
namespace DiagramText.Classes

open DiagramText.Graph (Contents)
open Text (IsWord)

/-- A text as it comes out of quotes, its entities read. -/
abbrev IsDecoded (s : String) : Prop := ¬ Text.quoteEntity <:+: s.toList

/-! ### Statements -/

/-- What a statement that was read can hold. -/
def Statement.IsSound : Statement → Prop
  | .declare name label _ => IsWord name ∧ ∀ l ∈ label, IsDecoded l
  | .stereotype name text => IsWord name ∧ Text.trimmed text = text
  | .member name _ => IsWord name
  | .relation source target _ left right label =>
    (IsWord source ∧ IsWord target) ∧ (∀ s ∈ left, IsDecoded s) ∧ (∀ s ∈ right, IsDecoded s) ∧
      ∀ l ∈ label, Text.trimmed l = l

theorem yields_declare : Reader.Yields declare Statement.IsSound := by
  have label : Reader.Yields (optional bracketed) fun o => ∀ l ∈ o, IsDecoded l :=
    ((Reader.yields_quoted.seqRight _).seqLeft _).optional
  exact (Reader.yields_any _).bind fun _ _ => (Reader.yields_any _).bind fun _ _ =>
    Reader.yields_identifier.bind fun _ word => label.bind fun _ decoded =>
      (Reader.yields_any _).bind fun _ _ => (Reader.yields_any _).bind fun _ _ =>
        (Reader.yields_any _).bind fun _ _ => Reader.yields_pure ⟨word, decoded⟩

theorem yields_stereotype : Reader.Yields stereotype Statement.IsSound :=
  (Reader.yields_any _).bind fun _ _ => (Reader.yields_any _).bind fun text _ =>
    (Reader.yields_any _).bind fun _ _ => (Reader.yields_any _).bind fun _ _ =>
      Reader.yields_identifier.bind fun _ word => (Reader.yields_any _).bind fun _ _ =>
        Reader.yields_pure ⟨word, by rw [Text.trimmed, String.toList_ofList, Text.trim_trim]⟩

theorem yields_relation : Reader.Yields relation Statement.IsSound := by
  have cardinality : Reader.Yields cardinality fun o => ∀ s ∈ o, IsDecoded s :=
    (Reader.yields_quoted.seqLeft _).optional
  refine Reader.yields_identifier.bind fun left leftWord => (Reader.yields_any _).bind fun _ _ =>
    cardinality.bind fun _ leftDecoded => (Reader.yields_any _).bind fun pointing _ =>
      (Reader.yields_any _).bind fun _ _ => cardinality.bind fun _ rightDecoded =>
        Reader.yields_identifier.bind fun right rightWord => Reader.yields_colonLabel.bind fun _ label =>
          (Reader.yields_any _).bind fun _ _ => ?_
  have tight := fun l h => (label l h).2
  split
  · exact Reader.yields_pure ⟨⟨rightWord, leftWord⟩, rightDecoded, leftDecoded, tight⟩
  · exact Reader.yields_pure ⟨⟨leftWord, rightWord⟩, leftDecoded, rightDecoded, tight⟩

theorem yields_statement : Reader.Yields statement Statement.IsSound := by
  apply Reader.yields_firstOf
  simp only [List.forall_mem_cons]
  refine ⟨yields_declare, yields_stereotype, yields_relation, ?_, by simp⟩
  exact Reader.yields_identifier.bind fun _ word => (Reader.yields_any _).bind fun _ _ =>
    (Reader.yields_any _).bind fun _ _ => (Reader.yields_any _).bind fun _ _ => Reader.yields_pure word

theorem isSound_of_ofText? {cs : List Char} {s : Statement} (read : Statement.ofText? cs = some s) :
    s.IsSound := yields_statement.whole? read

/-! ### Classes and relations -/

/-- A text that shows no stereotype. -/
structure IsPlain (s : String) : Prop where
  filled : s ≠ ""
  tight : Text.trimmed s = s
  noStereotype : ∀ inner, s.toList ≠ ['<', '<'] ++ inner ++ ['>', '>']

/-- A member as a text shows it. -/
def Member.IsRead : Member → Prop
  | .attribute s => IsPlain s ∧ '(' ∉ s.toList
  | .method s => IsPlain s ∧ '(' ∈ s.toList
  | .stereotype s => Text.trimmed s = s

theorem Member.isRead_of_ofText? {cs : List Char} {m : Member} (read : Member.ofText? cs = some m) :
    m.IsRead := by
  unfold Member.ofText? at read
  dsimp only at read
  have tight (text : List Char) : Text.trimmed (String.ofList (Text.trim text)) =
      String.ofList (Text.trim text) := by
    rw [Text.trimmed, String.toList_ofList, Text.trim_trim]
  split at read
  · cases read
  · next filled =>
    split at read
    · cases read
      exact tight _
    · next noStereotype =>
      have plain : IsPlain (String.ofList (Text.trim cs)) := by
        refine ⟨fun none => filled ?_, tight cs, fun inner same => ?_⟩
        · rw [← String.toList_ofList (l := Text.trim cs), none]
          rfl
        · rw [String.toList_ofList] at same
          rw [between?_eq_some_iff.2 same] at noStereotype
          cases noStereotype
      split at read
      · next opened =>
        cases read
        exact ⟨plain, by simpa using opened⟩
      · next closed =>
        cases read
        exact ⟨plain, by simpa using closed⟩

/-- A class as statements make it. -/
structure Profile.IsRead (p : Profile) : Prop where
  word : IsWord p.name
  decoded : IsDecoded p.label
  members : ∀ m ∈ p.members, m.IsRead

/-- A relation as statements make it. -/
structure Tie.IsRead (t : Tie) : Prop where
  known : (Relation.ofKey? t.kind).isSome
  tight : Text.trimmed t.label = t.label
  sourceCardinality : ∀ s ∈ t.sourceCardinality, IsDecoded s
  targetCardinality : ∀ s ∈ t.targetCardinality, IsDecoded s

theorem Relation.ofKey?_key (r : Relation) : (Relation.ofKey? r.key).isSome := by cases r <;> decide

theorem tie_linkAs (now : Instant) (id source target kind label : String) (left right : Option String) :
    tie (Graph.linkAs now id source target kind label (Draft.cardinalities left right)) =
      ⟨source, target, kind, label, left, right⟩ := by
  cases left <;> cases right <;> rfl

theorem Profile.mem_members_add {p : Profile} {m n : Member} (h : n ∈ (p.add m).members) :
    n = m ∨ n ∈ p.members := by
  cases m <;> simp [Profile.add, Profile.members] at h ⊢ <;> grind

/-- What is known of a class diagram that is read. -/
abbrev IsRead (g : Graph) : Prop := Contents (fun e => (profile e).IsRead) (fun c => (tie c).IsRead) g

/-! ### One line -/

namespace Draft

variable {now : Instant} {g : Graph} {name : String}

theorem isRead_ensure (read : IsRead g) (word : IsWord name) : IsRead (ensure now g name) := by
  exact Contents.ensure read fun n => ⟨word, word.noEntity, fun m none => absurd none List.not_mem_nil⟩

theorem isRead_record (read : IsRead g) {m : Member} (made : m.IsRead) :
    IsRead (g.modifyElement name (record m)) := by
  refine Contents.modifyElement read fun e known => ?_
  rw [profile_record]
  refine ⟨?_, ?_, fun n there => ?_⟩
  · cases m <;> exact known.word
  · cases m <;> exact known.decoded
  · rcases Profile.mem_members_add there with rfl | old
    · exact made
    · exact known.members n old

theorem isRead_addMember (read : IsRead g) (word : IsWord name) (text : List Char) :
    IsRead (addMember now g name text) := by
  unfold addMember
  split
  · next made => exact isRead_record (isRead_ensure read word) (Member.isRead_of_ofText? made)
  · exact read

/-- A draft that is read, its open class named by a word. -/
structure Sound (d : Draft) : Prop where
  read : IsRead d.graph
  word : ∀ name ∈ d.openClass, IsWord name

theorem sound_empty : Sound empty := ⟨Graph.contents_empty, by simp [empty]⟩

theorem sound_addBody (read : IsRead g) (word : IsWord name) (body : String) :
    Sound (addBody now g name body) := by
  unfold addBody
  split
  · exact ⟨List.foldlRecOn _ _ read fun _ before text _ => isRead_addMember before word text, by simp⟩
  · exact ⟨isRead_addMember read word _, by simpa using word⟩

theorem sound_apply (read : IsRead g) {s : Statement} (sound : s.IsSound) : Sound (apply now g s) := by
  cases s with
  | declare name label body =>
    obtain ⟨word, decoded⟩ := sound
    have labelled : IsRead ((ensure now g name).modifyElement name
        fun e => { e with label := label.getD e.label }) := by
      refine Contents.modifyElement (isRead_ensure read word) fun e known => ⟨known.word, ?_, known.members⟩
      cases label with
      | none => exact known.decoded
      | some l => exact decoded l rfl
    cases body with
    | none => exact ⟨labelled, by simp [apply]⟩
    | some body => exact sound_addBody labelled word body
  | stereotype name text =>
    exact ⟨isRead_record (isRead_ensure read sound.1) sound.2, by simp [apply]⟩
  | member name member => exact ⟨isRead_addMember read sound _, by simp [apply]⟩
  | relation source target kind left right label =>
    obtain ⟨⟨sourceWord, targetWord⟩, leftDecoded, rightDecoded, tight⟩ := sound
    refine ⟨Contents.connect (isRead_ensure (isRead_ensure read sourceWord) targetWord) fun id => ?_,
      by simp [apply]⟩
    rw [tie_linkAs]
    refine ⟨kind.ofKey?_key, ?_, leftDecoded, rightDecoded⟩
    cases label with
    | none => rfl
    | some l => exact tight l rfl

theorem sound_readLine {d : Draft} (sound : Sound d) (line : String) : Sound (readLine now d line) := by
  unfold readLine
  dsimp only
  split
  · next name isOpen =>
    have word := sound.word name isOpen
    split
    · exact ⟨isRead_addMember sound.read word _, by simp⟩
    · exact ⟨isRead_addMember sound.read word _, by simpa using word⟩
  · split
    · next said => exact sound_apply sound.read (isSound_of_ofText? said)
    · exact sound

end Draft

theorem isRead_read (now : Instant) (lines : List String) : IsRead (read now lines) := by
  have folded (d : Draft) (sound : d.Sound) : (lines.foldl (Draft.readLine now) d).Sound := by
    induction lines generalizing d with
    | nil => exact sound
    | cons line lines ih => exact ih _ (Draft.sound_readLine sound line)
  exact (folded .empty Draft.sound_empty).read

end DiagramText.Classes
