import DiagramText.Proofs.Entities.Soundness
import DiagramText.Proofs.Validation.Lines

/-! Printed entity-relationship diagrams are valid source, but for what an attribute says, and for
dashes in the name of an entity that has some: two of them make its line look like a relationship, whose
markers do not count, and then neither does the brace behind the name. -/
namespace DiagramText.Entities

open Validation (Silent Balanced IsBalanced Level Opens)

variable {e : Element} {c : Connection} {name : String} {line : List Char}

/-! ### What counts -/

/-- A line that looks like a relationship: only what follows a colon counts. -/
def LooksRelated (line : List Char) : Prop := "--".toList <:+: line ∨ "..".toList <:+: line

theorem scannable_of_looksRelated (looks : LooksRelated line) :
    Validation.scannable (some .entities) line = ((Text.cut? ':' line).map (·.2)).getD [] := by
  refine if_pos ?_
  rwa [Bool.or_eq_true, Text.occursIn_iff, Text.occursIn_iff]

theorem scannable_of_not_looksRelated (looks : ¬ LooksRelated line) :
    Validation.scannable (some .entities) line = line := by
  refine if_neg ?_
  rwa [Bool.or_eq_true, Text.occursIn_iff, Text.occursIn_iff]

/-! ### Entities -/

theorem silent_name (isName : IsName name) : Silent false name.toList :=
  Validation.silent_of_plain fun c inside => Validation.not_mem_marks rfl (isName.chars c inside)

theorem noColon_name (isName : IsName name) : ':' ∉ name.toList :=
  fun h => absurd (isName.chars _ h) (by decide)

/-- A name alone is balanced, even where nothing of it counts. -/
theorem isBalanced_name (isName : IsName name) : IsBalanced (some .entities) name := by
  refine Validation.isBalanced_iff.2 fun _ => ?_
  rw [isName.tight]
  by_cases looks : LooksRelated name.toList
  · rw [scannable_of_looksRelated looks, Text.cut?_eq_none (noColon_name isName)]
    exact Validation.silent_nil.balanced
  · rw [scannable_of_not_looksRelated looks]
    exact (silent_name isName).balanced

/-- A name without two dashes in a row opens the block behind it. -/
theorem opens_name (isName : IsName name) (dashes : ¬ "--".toList <:+: name.toList) :
    Opens (some .entities) (name ++ " \x7b") := by
  obtain ⟨c, cs, split, first⟩ := isName.first [' ']
  have silent : Silent false (name.toList ++ [' ']) := (silent_name isName).append Validation.silent_space
  have whole : (name ++ " \x7b").toList = name.toList ++ [' '] ++ ['\x7b'] := by simp
  have plain : ¬ LooksRelated (name ++ " \x7b").toList := by
    rw [whole]
    rintro (dash | dot)
    · rcases List.infix_concat_iff.1 dash with ⟨before, ending⟩ | dash
      · simpa using congrArg List.getLast? ending
      · rcases List.infix_concat_iff.1 dash with ⟨before, ending⟩ | dash
        · simpa using congrArg List.getLast? ending
        · exact dashes dash
    · have inside : '.' ∈ name.toList := by simpa using dot.subset (show '.' ∈ "..".toList by decide)
      exact absurd (isName.chars _ inside) (by decide)
  have tight : Text.trim (name ++ " \x7b").toList = (name ++ " \x7b").toList := by
    rw [whole, List.append_assoc]
    exact isName.trim_append [' '] (List.cons_ne_nil _ _) (by decide)
  rw [split] at whole silent
  refine Validation.opens_of_silent whole (not_isBlank_of_isNameChar first) ?_ silent fun b n => ?_
  · rintro rfl
    exact absurd first (by decide)
  · rw [tight, scannable_of_not_looksRelated plain]
    rfl

/-- What is balanced of an entity: its attributes, and its name where they follow. -/
structure IsEvenEntity (e : Element) : Prop where
  name : attributeTexts e ≠ [] → ¬ "--".toList <:+: e.id.toList
  attributes : ∀ line ∈ attributeTexts e, IsBalanced (some .entities) line

theorem level_entityLines (read : IsReadEntity e) (even : IsEvenEntity e) (layout : Layout) :
    Level (some .entities) (entityLines layout e) := by
  obtain ⟨isName, given⟩ := read
  unfold entityLines
  split
  · exact Validation.level_of_balanced (List.forall_mem_singleton.2
      ⟨Source.unbroken_indented isName.unbroken layout 1, (isBalanced_name isName).indented layout 1⟩)
  · next filled =>
    have inner : Level (some .entities) ((attributeTexts e).map (layout.indented 2)) := by
      refine Validation.level_indented layout (fun line => ⟨2, rfl⟩) fun line there =>
        ⟨?_, even.attributes line there⟩
      rw [attributeTexts_eq] at there
      obtain ⟨a, among, rfl⟩ := List.mem_map.1 there
      exact (given a among).unbroken
    have opened : '\n' ∉ (e.id ++ " \x7b").toList := by simpa using isName.unbroken
    exact Validation.level_block (Source.unbroken_indented opened layout 1)
      ((opens_name isName (even.name filled)).indented layout 1) inner layout 1

/-! ### Relationships -/

theorem silent_labelText (label : String) :
    Silent false (labelText label).toList ∧ '\n' ∉ (labelText label).toList := by
  rcases labelText_cases label with ⟨isName, same⟩ | same <;> rw [same]
  · exact ⟨silent_name isName, isName.unbroken⟩
  · exact ⟨Validation.silent_quoted label, Text.not_mem_quoted label⟩

/-- What stands in front of the colon of a relationship. -/
def relationshipFront (c : Connection) : List Char :=
  c.source.toList ++ ' ' :: ((cardinalityOf c leftKey).leftMarker.toList ++ ((Line.ofKey c.kind).token.toList ++
    ((cardinalityOf c rightKey).rightMarker.toList ++ ' ' :: (c.target.toList ++ [' ']))))

theorem relationshipText_eq_front (c : Connection) : (relationshipText c).toList =
    relationshipFront c ++ ':' :: ' ' :: (labelText c.label).toList := by
  simp [toList_relationshipText, relationshipChars, relationshipFront]

/-- What lines and the markers at their ends are made of. -/
def markerChars : List Char := ['|', 'o', '\x7b', '\x7d', '-', '.']

theorem not_mem_relationshipFront {x : Char} (source : x ∉ c.source.toList) (target : x ∉ c.target.toList)
    (space : x ≠ ' ') (other : x ∉ markerChars) : x ∉ relationshipFront c := by
  have left (k : Cardinality) : k.leftMarker.toList ⊆ markerChars := by cases k <;> decide
  have line (l : Line) : l.token.toList ⊆ markerChars := by cases l <;> decide
  have right (k : Cardinality) : k.rightMarker.toList ⊆ markerChars := by cases k <;> decide
  simp only [relationshipFront, List.mem_append, List.mem_cons, List.not_mem_nil, or_false, not_or]
  exact ⟨source, space, fun h => other (left _ h), fun h => other (line _ h), fun h => other (right _ h),
    space, target, space⟩

theorem looksRelated_relationshipText (c : Connection) : LooksRelated (relationshipText c).toList := by
  have token : (Line.ofKey c.kind).token.toList <:+: relationshipFront c :=
    ⟨c.source.toList ++ ' ' :: (cardinalityOf c leftKey).leftMarker.toList,
      (cardinalityOf c rightKey).rightMarker.toList ++ ' ' :: (c.target.toList ++ [' ']), by
        simp [relationshipFront]⟩
  have inside := token.trans (List.prefix_append _ (':' :: ' ' :: (labelText c.label).toList)).isInfix
  rw [relationshipText_eq_front]
  cases line : Line.ofKey c.kind <;> rw [line] at inside
  · exact .inl inside
  · exact .inr inside

/-- The braces of the markers stand in front of the colon, where they do not count. -/
theorem isBalanced_relationshipText (source : IsName c.source) (target : IsName c.target) :
    '\n' ∉ (relationshipText c).toList ∧ IsBalanced (some .entities) (relationshipText c) := by
  obtain ⟨silent, unbroken⟩ := silent_labelText c.label
  constructor
  · rw [relationshipText_eq_front]
    have free := not_mem_relationshipFront source.unbroken target.unbroken (by decide) (by decide)
    simpa using ⟨free, unbroken⟩
  · have free := not_mem_relationshipFront (noColon_name source) (noColon_name target) (by decide) (by decide)
    refine Validation.isBalanced_iff.2 fun _ => ?_
    rw [trim_relationshipText source, scannable_of_looksRelated (looksRelated_relationshipText c),
      relationshipText_eq_front, Text.cut?_append free]
    exact (Validation.silent_space.append silent).balanced

/-! ### The source -/

def IsEven (g : Graph) : Prop := ∀ e ∈ g.elements.values, IsEvenEntity e

theorem findings_print {g : Graph} (read : IsRead g) (keyed : g.Keyed) (closed : g.Closed) (even : IsEven g)
    (rules : Validation.Rules) (layout : Layout) (m : Metadata) :
    (Validation.scan rules (print layout g m)).findings = [] := by
  have entities : Level (some .entities) (g.elements.values.flatMap (entityLines layout)) :=
    Validation.level_flatMap fun e there => level_entityLines (read.elements e there) (even e there) layout
  have relationships : Level (some .entities)
      (g.connections.values.map fun c => layout.indented 1 (relationshipText c)) := by
    refine Validation.level_indented layout (fun c => ⟨1, rfl⟩) fun c there => ?_
    obtain ⟨source, target⟩ := Graph.ends_of_joins keyed.elements
      (fun e among => (read.elements e among).name) (closed c there)
    exact isBalanced_relationshipText source target
  exact Validation.findings_source rules layout m isHeader rfl (by decide) (entities.append relationships)

end DiagramText.Entities
