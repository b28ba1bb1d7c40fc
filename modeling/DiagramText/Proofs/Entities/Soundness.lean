import DiagramText.Proofs.Entities.Formatting
import DiagramText.Proofs.Reader.Results

/-! What is known of an entity-relationship diagram that is read, whatever its lines say. Entities have
names, and what was read from one line stays on one line when it is written. One statement preserves
this, and so does a run. -/
namespace DiagramText.Entities

open DiagramText.Graph (Contents)
open Reader (Leaves Yields YieldsWithout)

/-! ### Attributes -/

/-- An attribute as a line gives it. -/
structure Attribute.IsRead (a : Attribute) : Prop where
  dataType : '\n' ∉ a.dataType.toList
  name : '\n' ∉ a.name.toList
  keys : ∀ k ∈ a.keys, k ∈ keyNames

/-- The comment is in quotes, which keep breaks out. -/
theorem Attribute.IsRead.unbroken {a : Attribute} (read : a.IsRead) : '\n' ∉ a.text.toList := by
  have comment : '\n' ∉ commentChars a.comment := by
    cases a.comment with
    | none => simp [commentChars]
    | some s => simp [commentChars, Text.not_mem_quoted s]
  rw [a.toList_text]
  simp only [Attribute.chars, List.mem_append, List.mem_cons, not_or]
  exact ⟨read.dataType, by decide, read.name, not_mem_keysChars read.keys (by decide), comment⟩

theorem yieldsWithout_word {c : Char} : YieldsWithout c word fun s => c ∉ s.toList :=
  (Reader.yieldsWithout_run1 _).map fun cs free => by rwa [String.toList_ofList]

theorem yields_keys : Yields keys fun ks => ∀ k ∈ ks, k ∈ keyNames := by
  have key : Yields (Reader.oneOf (keyNames.map fun k => (k, k))) (· ∈ keyNames) := by
    refine (Reader.yields_oneOf _).mono fun k ⟨p, there, same⟩ => ?_
    obtain ⟨l, known, rfl⟩ := List.mem_map.1 there
    exact same ▸ known
  exact (key.sepBy1 comma).mono fun ks ⟨_, known⟩ => known

theorem leaves_keys : Leaves keys := (Reader.leaves_oneOf _).sepBy1 leaves_comma

theorem yieldsWithout_attribute : YieldsWithout '\n' attributeReader Attribute.IsRead := by
  have keys : YieldsWithout '\n' (optional (Reader.inlineBlanks1 *> keys)) fun o =>
      ∀ ks ∈ o, ∀ k ∈ ks, k ∈ keyNames :=
    ((yields_keys.without leaves_keys '\n').seqRight Reader.leaves_inlineBlanks1).optional
  have comment : Leaves (optional (Reader.inlineBlanks1 *> Reader.quoted)) :=
    (Reader.leaves_inlineBlanks1.seqRight Reader.leaves_quoted).optional
  refine yieldsWithout_word.bind fun dataType typed => (Reader.leaves_inlineBlanks1.without '\n').bind
    fun _ _ => yieldsWithout_word.bind fun name named => keys.bind fun o known =>
      (comment.without '\n').bind fun _ _ => Reader.yieldsWithout_pure ⟨typed, named, ?_⟩
  cases o with
  | none => exact List.forall_mem_nil _
  | some ks => exact known ks rfl

theorem isRead_of_attributes? {cs : List Char} (unbroken : '\n' ∉ cs) :
    ∀ a ∈ (attributes? cs).getD [], a.IsRead := by
  cases read : attributes? cs with
  | none => exact List.forall_mem_nil _
  | some as =>
    have free : '\n' ∉ Text.trim cs := fun h => unbroken (Text.mem_of_mem_trim h)
    exact (yieldsWithout_attribute.sepBy Reader.leaves_inlineBlanks1).whole? free read

/-! ### Statements -/

/-- What a statement that was read can hold. -/
def Statement.IsSound : Statement → Prop
  | .entity name attributes _ => IsName name ∧ ∀ a ∈ attributes, a.IsRead
  | .relationship left right _ _ _ _ => IsName left ∧ IsName right

theorem yields_entityName : Yields entityName IsName :=
  (Reader.yields_run1 Text.isNameChar).map fun cs h =>
    ⟨by rw [String.toList_ofList]; exact h.1, by rw [String.toList_ofList]; exact h.2⟩

theorem leaves_entityName : Leaves entityName := (Reader.leaves_run1 Text.isNameChar).map String.ofList

theorem yields_relationship : Yields relationship Statement.IsSound :=
  yields_entityName.bind fun _ left => (Reader.yields_any _).bind fun _ _ => (Reader.yields_any _).bind
    fun _ _ => (Reader.yields_any _).bind fun _ _ => (Reader.yields_any _).bind fun _ _ =>
      (Reader.yields_any _).bind fun _ _ => yields_entityName.bind fun _ right =>
        (Reader.yields_any _).bind fun _ _ => (Reader.yields_any _).bind fun _ _ =>
          Reader.yields_pure ⟨left, right⟩

theorem yieldsWithout_entity : YieldsWithout '\n' entity Statement.IsSound := by
  have block : YieldsWithout '\n' (optional block) fun o => ∀ cs ∈ o, '\n' ∉ cs :=
    (Reader.yieldsWithout_rest.seqRight
      (Reader.leaves_inlineBlanks.seqRight (Reader.leaves_token "\x7b"))).optional
  refine (yields_entityName.without leaves_entityName '\n').bind fun name named => block.bind
    fun o free => (Reader.leaves_atEnd.without '\n').bind fun _ _ => ?_
  cases o with
  | none => exact Reader.yieldsWithout_pure ⟨named, List.forall_mem_nil _⟩
  | some cs =>
    have unbroken : '\n' ∉ cs := free cs rfl
    dsimp only
    split
    · next inner behind cut =>
      rw [Text.cut?_eq_some cut, List.mem_append, not_or] at unbroken
      exact Reader.yieldsWithout_pure ⟨named, isRead_of_attributes? unbroken.1⟩
    · exact Reader.yieldsWithout_pure ⟨named, isRead_of_attributes? unbroken⟩

theorem isSound_of_ofText? {cs : List Char} {s : Statement} (unbroken : '\n' ∉ cs)
    (read : Statement.ofText? cs = some s) : s.IsSound := by
  have free : '\n' ∉ Text.trim cs := fun h => unbroken (Text.mem_of_mem_trim h)
  obtain ⟨r, among, found⟩ := Reader.firstOf_eq_some (Reader.whole?_eq_some read)
  simp only [List.mem_cons, List.not_mem_nil, or_false] at among
  rcases among with rfl | rfl
  · exact yields_relationship _ _ _ found
  · exact (yieldsWithout_entity _ _ _ free found).1

/-! ### The whole draft -/

/-- What is known of an element that was read. -/
structure IsReadEntity (e : Element) : Prop where
  name : IsName e.id
  attributes : ∀ a ∈ attributesOf e, a.IsRead

abbrev IsRead (g : Graph) : Prop := Contents IsReadEntity (fun _ => True) g

theorem attributesOf_append (e : Element) (a : Attribute) :
    attributesOf (e.append attributesKey a.toJson) = attributesOf e ++ [a] := by
  simp [attributesOf, storedAttributes_append]

theorem IsReadEntity.append {e : Element} (read : IsReadEntity e) {a : Attribute} (given : a.IsRead) :
    IsReadEntity (e.append attributesKey a.toJson) where
  name := (Graph.append_id ..).symm ▸ read.name
  attributes := by
    rw [attributesOf_append, List.forall_mem_append, List.forall_mem_singleton]
    exact ⟨read.attributes, given⟩

namespace Draft

variable {now : Instant} {g : Graph} {name : String}

theorem isRead_ensure (read : IsRead g) (isName : IsName name) : IsRead (ensure now g name) := by
  have none (n : Nat) : attributesOf (newEntity now name n) = [] := rfl
  refine Contents.ensure read fun n => ⟨isName, ?_⟩
  rw [none n]
  exact List.forall_mem_nil _

theorem isRead_addAttributes (read : IsRead g) {attributes : List Attribute}
    (given : ∀ a ∈ attributes, a.IsRead) : IsRead (addAttributes g name attributes) :=
  List.foldlRecOn attributes _ read fun _ before a there =>
    before.modifyElement fun _ entity => entity.append (given a there)

theorem isRead_apply (read : IsRead g) {s : Statement} (said : s.IsSound) : IsRead (apply now g s).graph := by
  cases s with
  | entity name attributes opensBlock => exact isRead_addAttributes (isRead_ensure read said.1) said.2
  | relationship left right leftCardinality rightCardinality line label =>
    exact (isRead_ensure (isRead_ensure read said.1) said.2).connect fun _ => trivial

theorem isRead_readLine {d : Draft} (read : IsRead d.graph) {line : String} (unbroken : '\n' ∉ line.toList) :
    IsRead (d.readLine now line).graph := by
  have free : '\n' ∉ Text.trim line.toList := fun h => unbroken (Text.mem_of_mem_trim h)
  unfold readLine
  dsimp only
  split
  · split
    · next last behind cut =>
      rw [Text.cut?_eq_some cut, List.mem_append, not_or] at free
      exact isRead_addAttributes read (isRead_of_attributes? free.1)
    · exact isRead_addAttributes read (isRead_of_attributes? free)
  · split
    · next s said => exact isRead_apply read (isSound_of_ofText? free said)
    · exact read

end Draft

/-- Whatever its lines say, what is read has named entities and attributes of one line each. -/
theorem isRead_read (now : Instant) {lines : List String} (unbroken : ∀ line ∈ lines, '\n' ∉ line.toList) :
    IsRead (read now lines) := by
  have run {d : Draft} (before : IsRead d.graph) : IsRead (lines.foldl (Draft.readLine now) d).graph := by
    induction lines generalizing d with
    | nil => exact before
    | cons line lines ih =>
      rw [List.forall_mem_cons] at unbroken
      exact ih unbroken.2 (Draft.isRead_readLine before unbroken.1)
  exact run Graph.contents_empty

end DiagramText.Entities
