import DiagramText.Proofs.Printing

/-! Statements on one line. Most stored texts are printed on one line or between quotes, and JSON
escapes line breaks. What is printed as it stands can break a statement: ids, the ends of connections,
and in three dialects some further texts, the bare ones. -/
namespace DiagramText

namespace Text

/-- A text without line breaks. -/
def IsOneLine (s : String) : Prop := ∀ c ∈ s.toList, c ≠ '\n' ∧ c ≠ '\r'

instance (s : String) : Decidable (IsOneLine s) := List.decidableBAll (fun c => c ≠ '\n' ∧ c ≠ '\r') s.toList

variable {s t : String}

theorem IsOneLine.oneLine_eq (whole : IsOneLine s) : oneLine s = s :=
  oneLine_eq_self (fun cr => (whole _ cr).2 rfl) fun lf => (whole _ lf).1 rfl

@[simp] theorem isOneLine_oneLine (s : String) : IsOneLine (oneLine s) := by
  rw [IsOneLine, toList_oneLine]
  exact fun c => not_break_of_mem_singleLine

@[simp] theorem isOneLine_quoted (s : String) : IsOneLine (quoted s) := by
  have inside : ∀ c ∈ encodeQuotes s.toList, c ≠ '\n' ∧ c ≠ '\r' := fun c => not_break_of_mem_encodeQuotes
  simpa [IsOneLine, toList_quoted, or_imp, forall_and] using inside

@[simp] theorem isOneLine_append_iff : IsOneLine (s ++ t) ↔ IsOneLine s ∧ IsOneLine t := by
  rw [IsOneLine, String.toList_append, List.forall_mem_append, IsOneLine, IsOneLine]

theorem isOneLine_ofList_of_subset {cs : List Char} (whole : IsOneLine s) (within : ∀ c ∈ cs, c ∈ s.toList) :
    IsOneLine (String.ofList cs) := by
  rw [IsOneLine, String.toList_ofList]
  exact fun c there => whole c (within c there)

theorem isOneLine_intercalate {sep : String} (between : IsOneLine sep) {texts : List String}
    (whole : ∀ t ∈ texts, IsOneLine t) : IsOneLine (sep.intercalate texts) := by
  rw [IsOneLine, String.toList_intercalate]
  exact forall_mem_intercalate between (List.forall_mem_map.2 whole)

end Text

open Text (IsOneLine isOneLine_append_iff isOneLine_ofList_of_subset)

/-! ### Numbers and JSON -/

theorem isOneLine_nat (n : Nat) : IsOneLine (toString n) := by
  rw [Nat.toString_eq_ofList_toDigits, IsOneLine, String.toList_ofList]
  intro c there
  have digit := Nat.isDigit_of_mem_toDigits (by decide) (by decide) there
  constructor <;> rintro rfl <;> cases digit

theorem isOneLine_int (n : Int) : IsOneLine (toString n) := by
  cases n with
  | ofNat n => exact isOneLine_nat n
  | negSucc n => exact isOneLine_append_iff.2 ⟨by decide, isOneLine_nat (n + 1)⟩

namespace Binary64

theorem isOneLine_zeros (n : Nat) : IsOneLine (zeros n) := by
  rw [zeros, IsOneLine, String.toList_ofList]
  intro c there
  rw [List.eq_of_mem_replicate there]
  decide

theorem isOneLine_positional {digits : String} (whole : IsOneLine digits) (n : Int) :
    IsOneLine (positional digits n) := by
  have point : IsOneLine "." := by decide
  have start : IsOneLine "0." := by decide
  have ending : IsOneLine ".0" := by decide
  unfold positional
  split
  · simp [start, isOneLine_zeros, whole]
  · dsimp only
    split
    · simp [whole, isOneLine_zeros, ending]
    · have before := isOneLine_ofList_of_subset whole fun c => List.mem_of_mem_take (i := n.toNat)
      have after := isOneLine_ofList_of_subset whole fun c => List.mem_of_mem_drop (i := n.toNat)
      simp [before, point, after]

theorem isOneLine_scientific {digits : String} (whole : IsOneLine digits) (e : Int) :
    IsOneLine (scientific digits e) := by
  have first := isOneLine_ofList_of_subset whole fun c => List.mem_of_mem_take (i := 1)
  have others := isOneLine_ofList_of_subset whole fun c => List.mem_of_mem_drop (i := 1)
  have sign : IsOneLine (if e < 0 then "-" else "+") := by split <;> decide
  have tail : IsOneLine (if digits.toList.drop 1 = [] then "" else
      "." ++ String.ofList (digits.toList.drop 1)) := by
    split
    · decide
    · exact isOneLine_append_iff.2 ⟨by decide, others⟩
  have mark : IsOneLine "e" := by decide
  unfold scientific
  simp only [isOneLine_append_iff]
  exact ⟨⟨⟨⟨first, tail⟩, mark⟩, sign⟩, isOneLine_nat _⟩

theorem isOneLine_text (x : Binary64) (style : FloatStyle) : IsOneLine (x.text style) := by
  have digits := isOneLine_nat x.shortest.digits
  have sign : IsOneLine (if x.isNegative then "-" else "") := by split <;> decide
  unfold text
  dsimp only
  split
  · exact isOneLine_append_iff.2 ⟨sign, by decide⟩
  · split
    · exact isOneLine_append_iff.2 ⟨sign, isOneLine_positional digits _⟩
    · exact isOneLine_append_iff.2 ⟨sign, isOneLine_scientific digits _⟩

end Binary64

namespace Json

theorem not_break_of_mem_escape {c d : Char} (h : d ∈ escape c) : d ≠ '\n' ∧ d ≠ '\r' := by
  have hex : ∀ n < 16, hexDigit n ≠ '\n' ∧ hexDigit n ≠ '\r' := by decide
  have plain (letter : Char) (other : letter ≠ '\n' ∧ letter ≠ '\r') :
      ∀ d ∈ ['\\', letter], d ≠ '\n' ∧ d ≠ '\r' := by
    simp [other]
  unfold escape at h
  split at h
  iterate 7 exact plain _ (by decide) d h
  next lf _ cr =>
    split at h
    · next low =>
      have high := hex (c.toNat / 16) (by omega)
      have below := hex (c.toNat % 16) (by omega)
      revert d
      simp [high, below]
    · rw [List.mem_singleton] at h
      exact h ▸ ⟨lf, cr⟩

theorem isOneLine_quote (s : String) : IsOneLine (quote s) := by
  have inside : IsOneLine (String.ofList (s.toList.flatMap escape)) := by
    rw [IsOneLine, String.toList_ofList]
    intro d there
    obtain ⟨c, -, within⟩ := List.mem_flatMap.1 there
    exact not_break_of_mem_escape within
  have mark : IsOneLine "\"" := by decide
  simp [quote, mark, inside]

mutual

/-- The compact text of a value is one line, whatever its strings hold. -/
theorem isOneLine_compact (j : Json) : IsOneLine j.compact := by
  cases j with
  | null => decide
  | bool b => cases b <;> decide
  | num n =>
    cases n with
    | int n => exact isOneLine_int n
    | float x => exact x.isOneLine_text _
  | str s => exact isOneLine_quote s
  | arr items =>
    rw [compact, isOneLine_append_iff, isOneLine_append_iff]
    exact ⟨⟨by decide, isOneLine_compactItems items⟩, by decide⟩
  | obj fields =>
    rw [compact, isOneLine_append_iff, isOneLine_append_iff]
    exact ⟨⟨by decide, isOneLine_compactFields fields⟩, by decide⟩

theorem isOneLine_compactItems (items : List Json) : IsOneLine (compactItems items) := by
  match items with
  | [] => decide
  | [x] => exact isOneLine_compact x
  | x :: y :: ys =>
    rw [compactItems, isOneLine_append_iff, isOneLine_append_iff]
    exact ⟨⟨isOneLine_compact x, by decide⟩, isOneLine_compactItems (y :: ys)⟩

theorem isOneLine_compactFields (fields : List (String × Json)) : IsOneLine (compactFields fields) := by
  match fields with
  | [] => decide
  | [(k, x)] =>
    rw [compactFields, isOneLine_append_iff, isOneLine_append_iff]
    exact ⟨⟨isOneLine_quote k, by decide⟩, isOneLine_compact x⟩
  | (k, x) :: y :: ys =>
    simp only [compactFields, isOneLine_append_iff]
    exact ⟨⟨⟨⟨isOneLine_quote k, by decide⟩, isOneLine_compact x⟩, by decide⟩,
      isOneLine_compactFields (y :: ys)⟩

end

end Json

/-! ### Statements -/

/-- Ids and the ends of connections have no line breaks. -/
structure Graph.IsUnbroken (g : Graph) : Prop where
  ids : ∀ e ∈ g.elements.values, IsOneLine e.id
  sources : ∀ c ∈ g.connections.values, IsOneLine c.source
  targets : ∀ c ∈ g.connections.values, IsOneLine c.target

variable {g : Graph} {e : Element} {c : Connection}

namespace Flowchart

/-- The keys and strings of a style. -/
def bareTexts (e : Element) : List String := e.style.entries.flatMap fun (k, v) => k :: v.string?.toList

theorem isOneLine_labelText (label : String) : IsOneLine (labelText label) := by
  unfold labelText
  dsimp only
  split
  · exact Text.isOneLine_quoted _
  · exact Text.isOneLine_oneLine label

theorem isOneLine_nodeText (id : IsOneLine e.id) : IsOneLine (nodeText e) := by
  have shape : IsOneLine (shapeOf e).opening ∧ IsOneLine (shapeOf e).closing := by
    cases shapeOf e <;> decide
  simp [nodeText, id, shape, isOneLine_labelText]

theorem isOneLine_groupText (id : IsOneLine e.id) : IsOneLine (groupText e) := by
  simp only [groupText, isOneLine_append_iff]
  exact ⟨⟨⟨⟨by decide, id⟩, by decide⟩, isOneLine_labelText e.label⟩, by decide⟩

theorem isOneLine_edgeText (source : IsOneLine c.source) (target : IsOneLine c.target) :
    IsOneLine (edgeText c) := by
  have arrow : IsOneLine (Arrow.ofKey c.kind).token := by cases Arrow.ofKey c.kind <;> decide
  unfold edgeText
  dsimp only
  split <;> simp only [isOneLine_append_iff]
  · exact ⟨⟨⟨⟨⟨⟨source, by decide⟩, arrow⟩, by decide⟩, isOneLine_labelText c.label⟩, by decide⟩, target⟩
  · exact ⟨⟨⟨⟨source, by decide⟩, arrow⟩, by decide⟩, target⟩

theorem isOneLine_styleValue {v : Json} (bare : ∀ s ∈ v.string?, IsOneLine s) : IsOneLine (styleValue v) := by
  cases v with
  | str s => exact bare s rfl
  | _ => exact Json.isOneLine_compact _

theorem isOneLine_styleText (id : IsOneLine e.id) (bare : ∀ s ∈ bareTexts e, IsOneLine s) :
    IsOneLine (styleText e) := by
  have declaration : ∀ t ∈ e.style.entries.map fun (k, v) => k ++ ":" ++ styleValue v, IsOneLine t := by
    rw [List.forall_mem_map]
    rintro ⟨k, v⟩ there
    have own : ∀ s ∈ k :: v.string?.toList, IsOneLine s := fun s within =>
      bare s (List.mem_flatMap.2 ⟨(k, v), there, within⟩)
    rw [List.forall_mem_cons] at own
    simp only [isOneLine_append_iff]
    exact ⟨⟨own.1, by decide⟩, isOneLine_styleValue fun s same => own.2 s (Option.mem_toList.2 same)⟩
  simp only [styleText, isOneLine_append_iff]
  exact ⟨⟨⟨by decide, id⟩, by decide⟩, Text.isOneLine_intercalate (by decide) declaration⟩

theorem isOneLine_statements (whole : g.IsUnbroken)
    (bare : ∀ e ∈ g.elements.values, ∀ s ∈ bareTexts e, IsOneLine s) :
    ∀ p ∈ statements g, IsOneLine p.text := by
  simp only [statements, List.forall_mem_append, List.forall_mem_map]
  refine ⟨⟨?items, fun c there => ?edge⟩, fun e there => ?style⟩
  case items =>
    refine Outline.forall_ofElements (fun e there _ => ?_) (fun e there _ => ?_) (fun _ => ?_) _
    · exact isOneLine_nodeText (whole.ids e there)
    · exact isOneLine_groupText (whole.ids e there)
    · exact (by decide : IsOneLine "end")
  case edge => exact isOneLine_edgeText (whole.sources c there) (whole.targets c there)
  case style =>
    have known := List.mem_of_mem_filter there
    exact isOneLine_styleText (whole.ids e known) (bare e known)

end Flowchart

namespace Sequence

/-- The participants of a note. -/
def bareTexts (e : Element) : List String := if e.kind = .note then e.listed participantsKey else []

theorem isOneLine_declarationText (id : IsOneLine e.id) : IsOneLine (declarationText e) := by
  have keyword : IsOneLine (Role.ofKeyword (e.property? roleKey)).keyword := by
    cases Role.ofKeyword (e.property? roleKey) <;> decide
  have space : IsOneLine " " := by decide
  unfold declarationText
  dsimp only
  split <;> simp only [isOneLine_append_iff]
  · exact ⟨⟨keyword, space⟩, id⟩
  · exact ⟨⟨⟨⟨keyword, space⟩, id⟩, by decide⟩, Text.isOneLine_oneLine e.label⟩

theorem isOneLine_messageText (source : IsOneLine c.source) (target : IsOneLine c.target) :
    IsOneLine (messageText c) := by
  have arrow : IsOneLine (Arrow.ofKey c.kind).token := by cases Arrow.ofKey c.kind <;> decide
  unfold messageText
  dsimp only
  split <;> simp only [isOneLine_append_iff]
  · exact ⟨⟨⟨⟨source, arrow⟩, target⟩, by decide⟩, Text.isOneLine_oneLine c.label⟩
  · exact ⟨⟨source, arrow⟩, target⟩

theorem isOneLine_noteText? (bare : ∀ s ∈ e.listed participantsKey, IsOneLine s) :
    ∀ text ∈ noteText? e, IsOneLine text := by
  have placement : IsOneLine (Placement.ofText (e.property? placementKey)).text := by
    cases Placement.ofText (e.property? placementKey) <;> decide
  unfold noteText?
  cases listed : e.listed participantsKey with
  | nil => simp
  | cons id ids =>
    rw [listed] at bare
    rintro text ⟨⟩
    simp only [isOneLine_append_iff]
    exact ⟨⟨⟨⟨⟨by decide, placement⟩, by decide⟩, Text.isOneLine_intercalate (by decide) bare⟩, by decide⟩,
      Text.isOneLine_oneLine e.label⟩

theorem isOneLine_stepTexts (whole : g.IsUnbroken)
    (bare : ∀ e ∈ g.elements.values, ∀ s ∈ bareTexts e, IsOneLine s) :
    ∀ text ∈ stepTexts g, IsOneLine text := by
  have step : ∀ p ∈ steps g, ∀ text ∈ p.2, IsOneLine text := by
    simp only [steps, List.forall_mem_append, List.forall_mem_map]
    constructor
    · rintro c there text ⟨⟩
      exact isOneLine_messageText (whole.sources c there) (whole.targets c there)
    · intro e there
      obtain ⟨known, note⟩ := List.mem_filter.1 there
      have own := bare e known
      rw [bareTexts, if_pos (by simpa using note)] at own
      exact isOneLine_noteText? own
  intro text there
  obtain ⟨p, sorted, printed⟩ := List.mem_filterMap.1 there
  exact step p (List.mem_mergeSort.1 sorted) text printed

theorem isOneLine_statements (whole : g.IsUnbroken)
    (bare : ∀ e ∈ g.elements.values, ∀ s ∈ bareTexts e, IsOneLine s) :
    ∀ p ∈ statements g, IsOneLine p.text := by
  simp only [statements, List.forall_mem_append, List.forall_mem_map]
  exact ⟨fun e there => isOneLine_declarationText (whole.ids e (List.mem_of_mem_filter there)),
    isOneLine_stepTexts whole bare⟩

end Sequence

namespace Classes

theorem isOneLine_headText (id : IsOneLine e.id) : IsOneLine (headText e) := by
  have start : IsOneLine ("class " ++ e.id) := isOneLine_append_iff.2 ⟨by decide, id⟩
  unfold headText
  dsimp only
  split
  · rw [isOneLine_append_iff, isOneLine_append_iff, isOneLine_append_iff]
    exact ⟨⟨⟨start, by decide⟩, Text.isOneLine_quoted e.label⟩, by decide⟩
  · exact start

theorem isOneLine_bodyTexts (e : Element) : ∀ text ∈ bodyTexts e, IsOneLine text := by
  unfold bodyTexts
  dsimp only
  rw [List.forall_mem_append, List.forall_mem_map]
  refine ⟨fun text there => ?_, fun text _ => Text.isOneLine_oneLine text⟩
  obtain ⟨stereotype, -, rfl⟩ := Option.map_eq_some_iff.1 (Option.mem_toList.1 there)
  rw [isOneLine_append_iff, isOneLine_append_iff]
  exact ⟨⟨by decide, Text.isOneLine_oneLine stereotype⟩, by decide⟩

theorem isOneLine_cardinalityText (cardinality : Option String) : IsOneLine (cardinalityText cardinality) := by
  cases cardinality with
  | none => decide
  | some s => exact isOneLine_append_iff.2 ⟨by decide, Text.isOneLine_quoted s⟩

theorem isOneLine_relationText (source : IsOneLine c.source) (target : IsOneLine c.target) :
    IsOneLine (relationText c) := by
  have token : IsOneLine (Relation.ofKey c.kind).token := by cases Relation.ofKey c.kind <;> decide
  have label : IsOneLine (if c.hasLabel then ": " ++ Text.oneLine c.label else "") := by
    split
    · exact isOneLine_append_iff.2 ⟨by decide, Text.isOneLine_oneLine c.label⟩
    · decide
  have space : IsOneLine " " := by decide
  simp only [relationText, isOneLine_append_iff]
  exact ⟨⟨⟨⟨⟨⟨⟨source, isOneLine_cardinalityText _⟩, space⟩, token⟩, isOneLine_cardinalityText _⟩, space⟩,
    target⟩, label⟩

theorem isOneLine_statements (whole : g.IsUnbroken) : ∀ p ∈ statements g, IsOneLine p.text := by
  simp only [statements, List.forall_mem_append, List.forall_mem_map, List.forall_mem_flatMap]
  refine ⟨fun e there => ?_, fun c there => ?_⟩
  · have head := isOneLine_headText (whole.ids e there)
    exact Placed.forall_block head (isOneLine_append_iff.2 ⟨head, by decide⟩) (isOneLine_bodyTexts e) (by decide)
  · exact isOneLine_relationText (whole.sources c there) (whole.targets c there)

end Classes

namespace States

theorem isOneLine_declarationText (id : IsOneLine e.id) : IsOneLine (declarationText e) := by
  have start : IsOneLine (if e.label = "" ∨ e.label = e.id then "state " ++ e.id
      else "state " ++ Text.quoted e.label ++ " as " ++ e.id) := by
    split <;> simp only [isOneLine_append_iff]
    · exact ⟨by decide, id⟩
    · exact ⟨⟨⟨by decide, Text.isOneLine_quoted e.label⟩, by decide⟩, id⟩
  unfold declarationText
  dsimp only
  split
  · next p _ =>
    have name : IsOneLine p.name := by cases p <;> decide
    simp only [isOneLine_append_iff]
    exact ⟨⟨⟨start, by decide⟩, name⟩, by decide⟩
  · exact start

theorem isOneLine_transitionText (source : IsOneLine c.source) (target : IsOneLine c.target) :
    IsOneLine (transitionText c) := by
  unfold transitionText
  dsimp only
  split <;> simp only [isOneLine_append_iff]
  · exact ⟨⟨⟨⟨source, by decide⟩, target⟩, by decide⟩, Text.isOneLine_oneLine c.label⟩
  · exact ⟨⟨source, by decide⟩, target⟩

theorem isOneLine_statements (whole : g.IsUnbroken) : ∀ p ∈ statements g, IsOneLine p.text := by
  simp only [statements, List.forall_mem_append, List.forall_mem_map]
  refine ⟨?items, fun c there => isOneLine_transitionText (whole.sources c there) (whole.targets c there)⟩
  case items =>
    refine Outline.forall_ofElements (fun e there _ => ?_) (fun e there _ => ?_) (fun _ => ?_) _
    · exact isOneLine_declarationText (whole.ids e there)
    · exact isOneLine_append_iff.2 ⟨isOneLine_declarationText (whole.ids e there), by decide⟩
    · exact (by decide : IsOneLine "\x7d")

end States

namespace Entities

/-- The type, the name and the keys of an attribute that is written. -/
def attributeBareTexts? (a : Json) : Option (List String) := do
  let dataType ← (a.field? "type").bind Json.string?
  let name ← (a.field? "name").bind Json.string?
  pure (dataType :: name :: ((a.field? "keys").map Json.strings).getD [])

/-- The types, names and keys of the attributes. -/
def bareTexts (e : Element) : List String :=
  ((((e.properties.get? attributesKey).bind Json.items?).getD []).filterMap attributeBareTexts?).flatten

theorem isOneLine_attributeText? {a : Json} (bare : ∀ texts ∈ attributeBareTexts? a, ∀ s ∈ texts, IsOneLine s) :
    ∀ text ∈ attributeText? a, IsOneLine text := by
  revert bare
  unfold attributeText? attributeBareTexts?
  cases (a.field? "type").bind Json.string? with
  | none => simp
  | some dataType =>
    cases (a.field? "name").bind Json.string? with
    | none => simp
    | some name =>
      intro bare
      have own := bare _ rfl
      rw [List.forall_mem_cons, List.forall_mem_cons] at own
      obtain ⟨dataType, name, keys⟩ := own
      rintro text ⟨⟩
      simp only [isOneLine_append_iff]
      refine ⟨⟨⟨⟨dataType, by decide⟩, name⟩, ?keysText⟩, ?commentText⟩
      case keysText =>
        split
        · decide
        · exact isOneLine_append_iff.2 ⟨by decide, Text.isOneLine_intercalate (by decide) keys⟩
      case commentText =>
        split
        · exact isOneLine_append_iff.2 ⟨by decide, Text.isOneLine_quoted _⟩
        · decide

theorem isOneLine_attributeTexts (bare : ∀ s ∈ bareTexts e, IsOneLine s) :
    ∀ text ∈ attributeTexts e, IsOneLine text := by
  intro text there
  obtain ⟨a, listed, written⟩ := List.mem_filterMap.1 there
  refine isOneLine_attributeText? (fun texts same s within => bare s ?_) text written
  exact List.mem_flatten.2 ⟨texts, List.mem_filterMap.2 ⟨a, listed, same⟩, within⟩

theorem isOneLine_labelText (label : String) : IsOneLine (labelText label) := by
  unfold labelText
  split
  · next named =>
    have names := List.all_eq_true.1 named.2
    intro c there
    constructor <;> rintro rfl <;> exact absurd (names _ there) (by decide)
  · exact Text.isOneLine_quoted label

theorem isOneLine_relationshipText (source : IsOneLine c.source) (target : IsOneLine c.target) :
    IsOneLine (relationshipText c) := by
  have marks (k : Cardinality) : IsOneLine k.leftMarker ∧ IsOneLine k.rightMarker := by cases k <;> decide
  have line : IsOneLine (Line.ofKey c.kind).token := by cases Line.ofKey c.kind <;> decide
  have space : IsOneLine " " := by decide
  simp only [relationshipText, isOneLine_append_iff]
  exact ⟨⟨⟨⟨⟨⟨⟨⟨source, space⟩, (marks _).1⟩, line⟩, (marks _).2⟩, space⟩, target⟩, by decide⟩,
    isOneLine_labelText c.label⟩

theorem isOneLine_statements (whole : g.IsUnbroken)
    (bare : ∀ e ∈ g.elements.values, ∀ s ∈ bareTexts e, IsOneLine s) :
    ∀ p ∈ statements g, IsOneLine p.text := by
  simp only [statements, List.forall_mem_append, List.forall_mem_map, List.forall_mem_flatMap]
  refine ⟨fun e there => ?_, fun c there => ?_⟩
  · have id := whole.ids e there
    exact Placed.forall_block id (isOneLine_append_iff.2 ⟨id, by decide⟩)
      (isOneLine_attributeTexts (bare e there)) (by decide)
  · exact isOneLine_relationshipText (whole.sources c there) (whole.targets c there)

end Entities

namespace Dialect

/-- The texts of an element, besides its id, that are printed as they stand. -/
def bareTexts : Dialect → Element → List String
  | .flowchart, e => Flowchart.bareTexts e
  | .sequence, e => Sequence.bareTexts e
  | .entities, e => Entities.bareTexts e
  | .classes, _ | .states, _ => []

/-- Where ids, ends and bare texts have no line breaks, every statement is on one line. -/
theorem isOneLine_statements {t : Dialect} (whole : g.IsUnbroken)
    (bare : ∀ e ∈ g.elements.values, ∀ s ∈ t.bareTexts e, IsOneLine s) :
    ∀ p ∈ t.statements g, IsOneLine p.text := by
  cases t with
  | flowchart => exact Flowchart.isOneLine_statements whole bare
  | sequence => exact Sequence.isOneLine_statements whole bare
  | classes => exact Classes.isOneLine_statements whole
  | states => exact States.isOneLine_statements whole
  | entities => exact Entities.isOneLine_statements whole bare

end Dialect
end DiagramText
