import DiagramText.Entities.Printer
import DiagramText.Proofs.Graph.Building
import DiagramText.Proofs.Line
import DiagramText.Proofs.Reader.Repetition

/-! The lines of entity-relationship source. An attribute is read back from its words, its keys and its
comment; an entity from its name; a relationship from the markers at its ends and the line between. -/
namespace DiagramText.Entities

open Reader (Consumes Leaves Reads Refuses Stops)
open Text (EndsSolid IsQuotable)

/-! ### Names -/

/-- The name of an entity: letters, digits, underscores and dashes, one at least. -/
structure IsName (s : String) : Prop where
  some : s.toList ≠ []
  chars : ∀ c ∈ s.toList, Text.isNameChar c

instance (s : String) : Decidable (IsName s) :=
  decidable_of_iff (s.toList ≠ [] ∧ s.toList.all Text.isNameChar)
    ⟨fun h => ⟨h.1, List.all_eq_true.1 h.2⟩, fun h => ⟨h.some, List.all_eq_true.2 h.chars⟩⟩

theorem not_isBlank_of_isNameChar {c : Char} (h : Text.isNameChar c) : Text.isBlank c = false := by
  rw [Text.isNameChar, Bool.or_eq_true, ← Text.isWordChar, beq_iff_eq] at h
  rcases h with word | rfl
  · exact Text.not_isBlank_of_isWordChar word
  · decide

theorem isInlineBlank_eq_false_of_isNameChar {c : Char} (h : Text.isNameChar c) :
    Text.isInlineBlank c = false := by
  rw [← Bool.not_eq_true]
  intro blank
  have := not_isBlank_of_isNameChar h
  rw [Text.isBlank_of_isInlineBlank blank] at this
  cases this

variable {name source target : String} {rest : List Char}

namespace IsName

theorem first (isName : IsName name) (rest : List Char) :
    ∃ c cs, name.toList ++ rest = c :: cs ∧ Text.isNameChar c := by
  cases split : name.toList with
  | nil => exact absurd split isName.some
  | cons c cs => exact ⟨c, cs ++ rest, rfl, isName.chars c (by simp [split])⟩

theorem unbroken (isName : IsName name) : '\n' ∉ name.toList :=
  fun h => absurd (isName.chars _ h) (by decide)

theorem tight (isName : IsName name) : Text.trim name.toList = name.toList :=
  Text.trim_eq_self (fun c h => not_isBlank_of_isNameChar (isName.chars c (List.mem_of_mem_head? h)))
    fun c h => not_isBlank_of_isNameChar (isName.chars c (List.mem_of_getLast? h))

theorem stops (isName : IsName name) (rest : List Char) :
    Stops Text.isInlineBlank (name.toList ++ rest) := by
  obtain ⟨c, cs, split, first⟩ := isName.first rest
  rw [split, Reader.stops_cons]
  exact isInlineBlank_eq_false_of_isNameChar first

theorem trim_append (isName : IsName name) (between : List Char) {last : List Char}
    (some : last ≠ []) (tight : Text.trim last = last) :
    Text.trim (name.toList ++ (between ++ last)) = name.toList ++ (between ++ last) := by
  cases start : name.toList with
  | nil => exact absurd start isName.some
  | cons c cs =>
    have notBlank := not_isBlank_of_isNameChar (isName.chars c (by simp [start]))
    rw [← List.append_assoc]
    exact Text.trim_cons_append c (cs ++ between) notBlank some tight

theorem quotable (isName : IsName name) : IsQuotable name where
  cr h := absurd (isName.chars _ h) (by decide)
  lf := isName.unbroken
  noEntity entity := absurd (isName.chars '#' (entity.subset (by decide))) (by decide)

theorem first_line (isName : IsName name) (rest : List Char) :
    ∃ c cs, name.toList ++ rest = c :: cs ∧ c ≠ '%' := by
  obtain ⟨c, cs, split, first⟩ := isName.first rest
  exact ⟨c, cs, split, by rintro rfl; exact absurd first (by decide)⟩

end IsName

theorem reads_entityName (isName : IsName name) (stops : Stops Text.isNameChar rest) :
    Reads entityName (name.toList ++ rest) name rest := by
  have := (Reader.reads_run1 isName.some isName.chars stops).map String.ofList
  rwa [String.ofList_toList] at this

/-! ### Attributes -/

/-- A word of an attribute: nothing in it ends a word or a block. -/
structure IsAttributeWord (s : String) : Prop where
  some : s.toList ≠ []
  solid : ∀ c ∈ s.toList, Text.isBlank c = false
  quote : '"' ∉ s.toList
  brace : '\x7d' ∉ s.toList

instance (s : String) : Decidable (IsAttributeWord s) :=
  decidable_of_iff (s.toList ≠ [] ∧ (s.toList.all fun c => decide (Text.isBlank c = false)) ∧
      '"' ∉ s.toList ∧ '\x7d' ∉ s.toList)
    ⟨fun ⟨n, s, q, b⟩ => ⟨n, Text.forall_mem_of_all s, q, b⟩,
      fun h => ⟨h.some, by simpa using h.solid, h.quote, h.brace⟩⟩

/-- A closing brace stands in one of the texts of an attribute. -/
def Attribute.HasBrace (a : Attribute) : Prop :=
  '\x7d' ∈ a.dataType.toList ∨ '\x7d' ∈ a.name.toList ∨ ∃ s ∈ a.comment, '\x7d' ∈ s.toList

/-- An attribute that a line can spell, but for what quotes make of its comment. -/
structure Attribute.IsWritten (a : Attribute) : Prop where
  dataType : IsAttributeWord a.dataType
  name : IsAttributeWord a.name
  keys : ∀ k ∈ a.keys, k ∈ keyNames
  comment : ∀ s ∈ a.comment, '\x7d' ∉ s.toList

instance (a : Attribute) : Decidable a.IsWritten :=
  decidable_of_iff (IsAttributeWord a.dataType ∧ IsAttributeWord a.name ∧ (∀ k ∈ a.keys, k ∈ keyNames) ∧
      ∀ s ∈ a.comment, '\x7d' ∉ s.toList)
    ⟨fun ⟨t, n, k, c⟩ => ⟨t, n, k, c⟩, fun h => ⟨h.dataType, h.name, h.keys, h.comment⟩⟩

theorem Attribute.IsWritten.clean {a : Attribute} (written : a.IsWritten) : ¬ a.HasBrace := by
  rintro (h | h | ⟨s, given, h⟩)
  · exact written.dataType.brace h
  · exact written.name.brace h
  · exact written.comment s given h

/-- The attribute that is read where one is written. -/
def Attribute.carried (a : Attribute) : Attribute := { a with comment := a.comment.map Text.requoted }

/-- An attribute that source can carry. -/
structure Attribute.IsTextual (a : Attribute) : Prop where
  dataType : IsAttributeWord a.dataType
  noComment : ¬ Source.commentMark <+: a.dataType.toList
  name : IsAttributeWord a.name
  keys : ∀ k ∈ a.keys, k ∈ keyNames
  comment : ∀ s ∈ a.comment, IsQuotable s ∧ '\x7d' ∉ s.toList

instance (a : Attribute) : Decidable a.IsTextual :=
  decidable_of_iff (IsAttributeWord a.dataType ∧ (¬ Source.commentMark <+: a.dataType.toList) ∧
      IsAttributeWord a.name ∧ (∀ k ∈ a.keys, k ∈ keyNames) ∧
      ∀ s ∈ a.comment, IsQuotable s ∧ '\x7d' ∉ s.toList)
    ⟨fun ⟨t, n, a, k, c⟩ => ⟨t, n, a, k, c⟩, fun h => ⟨h.dataType, h.noComment, h.name, h.keys, h.comment⟩⟩

theorem Attribute.IsTextual.isWritten {a : Attribute} (textual : a.IsTextual) : a.IsWritten :=
  ⟨textual.dataType, textual.name, textual.keys, fun s given => (textual.comment s given).2⟩

theorem Attribute.IsTextual.carried {a : Attribute} (textual : a.IsTextual) : a.carried = a := by
  obtain ⟨dataType, name, keys, comment⟩ := a
  cases comment with
  | none => rfl
  | some s =>
    have back : Text.requoted s = s := (textual.comment s rfl).1.requoted
    simp [Attribute.carried, back]

def keysChars (keys : List String) : List Char :=
  if keys = [] then [] else ' ' :: (", ".intercalate keys).toList

def commentChars : Option String → List Char
  | some comment => ' ' :: (Text.quoted comment).toList
  | none => []

/-- The line of an attribute without its indentation. -/
def Attribute.chars (a : Attribute) : List Char :=
  a.dataType.toList ++ ' ' :: (a.name.toList ++ (keysChars a.keys ++ commentChars a.comment))

theorem IsAttributeWord.isInlineBlank {s : String} (isWord : IsAttributeWord s) :
    ∀ c ∈ s.toList, Text.isInlineBlank c = false := by
  intro c h
  rw [← Bool.not_eq_true]
  intro blank
  have solid := isWord.solid c h
  rw [Text.isBlank_of_isInlineBlank blank] at solid
  cases solid

theorem IsAttributeWord.stops {s : String} (isWord : IsAttributeWord s) (rest : List Char) :
    Stops Text.isInlineBlank (s.toList ++ rest) := by
  obtain ⟨c, cs, split⟩ := List.exists_cons_of_ne_nil isWord.some
  rw [split, List.cons_append, Reader.stops_cons]
  exact isWord.isInlineBlank c (by simp [split])

theorem reads_word {s : String} (isWord : IsAttributeWord s) (ends : Stops (fun c => !endsWord c) rest) :
    Reads word (s.toList ++ rest) s rest := by
  have inside : ∀ c ∈ s.toList, !endsWord c := by
    intro c h
    simp only [endsWord, Bool.not_eq_true', Bool.or_eq_false_iff, beq_eq_false_iff_ne]
    exact ⟨isWord.isInlineBlank c h, fun same => isWord.quote (same ▸ h)⟩
  have := (Reader.reads_run1 isWord.some inside ends).map String.ofList
  rwa [String.ofList_toList] at this

/-! #### Keys -/

theorem reads_key {k : String} (known : k ∈ keyNames) (rest : List Char) :
    Reads (Reader.oneOf (keyNames.map fun k => (k, k))) (k.toList ++ rest) k rest := by
  refine Reader.reads_oneOf_map known fun l before => Text.not_prefix_of_first ?_
  revert l
  revert k
  decide

/-- Any of the keys. -/
abbrev anyKey : Reader String := Reader.oneOf (keyNames.map fun k => (k, k))

theorem toList_intercalate (k : String) (ks : List String) :
    (", ".intercalate (k :: ks)).toList = k.toList ++ ks.flatMap fun l => ',' :: ' ' :: l.toList :=
  Text.toList_intercalate_cons ", " k ks

theorem stops_key {k : String} (known : k ∈ keyNames) (rest : List Char) :
    Stops Text.isInlineBlank (k.toList ++ rest) := by
  apply Reader.stops_append
  revert k
  decide

theorem leaves_comma : Leaves comma :=
  (Reader.leaves_inlineBlanks.seqRight (Reader.leaves_token ",")).seqRight Reader.leaves_inlineBlanks

theorem consumes_nextKey : Consumes (comma *> anyKey) :=
  leaves_comma.seqRight_consumes (Reader.consumes_oneOf (by decide))

/-- Keys, and the keys that can be read behind them. -/
theorem reads_keys {k : String} {ks more : List String} {last : List Char} (known : ∀ l ∈ k :: ks, l ∈ keyNames)
    (others : Reads (Reader.many (comma *> anyKey)) rest more last) :
    Reads keys ((", ".intercalate (k :: ks)).toList ++ rest) (k :: ks ++ more) last := by
  rw [List.forall_mem_cons] at known
  rw [toList_intercalate, List.append_assoc]
  have each : ∀ l ∈ ks, ∀ cs, Reads (comma *> anyKey) (',' :: ' ' :: l.toList ++ cs) l cs := by
    intro l h cs
    have separated : Reads comma (',' :: ' ' :: (l.toList ++ cs)) () (l.toList ++ cs) :=
      ((Reader.reads_noBlanks (by simp; decide)).seqRight (Reader.reads_token_char rfl _)).seqRight
        (Reader.reads_space (stops_key (known.2 l h) cs))
    exact separated.seqRight (reads_key (known.2 l h) cs)
  exact (reads_key known.1 _).bind ((Reader.reads_many_append consumes_nextKey each others).bind (Reads.pure _ _))

theorem reads_keysChars {k : String} {ks more : List String} {last : List Char} (known : ∀ l ∈ k :: ks, l ∈ keyNames)
    (others : Reads (Reader.many (comma *> anyKey)) rest more last) :
    Reads (optional (Reader.inlineBlanks1 *> keys)) (keysChars (k :: ks) ++ rest) (some (k :: ks ++ more)) last := by
  have some : keysChars (k :: ks) = ' ' :: (", ".intercalate (k :: ks)).toList := if_neg (List.cons_ne_nil k ks)
  have stops : Stops Text.isInlineBlank ((", ".intercalate (k :: ks)).toList ++ rest) := by
    rw [toList_intercalate, List.append_assoc]
    exact stops_key (known k (List.mem_cons_self ..)) _
  rw [some, List.cons_append]
  exact ((Reader.reads_space1 stops).seqRight (reads_keys known others)).optional

/-- What comes behind an attribute is none of its keys. -/
def KeysEnd (ks : List String) (rest : List Char) : Prop :=
  if ks = [] then Refuses (Reader.inlineBlanks1 *> keys) rest else Refuses (comma *> anyKey) rest

/-- Keys are read where they are, and none where they are not. -/
theorem reads_optionalKeys {ks : List String} (known : ∀ l ∈ ks, l ∈ keyNames) (ends : KeysEnd ks rest) :
    ∃ o, Reads (optional (Reader.inlineBlanks1 *> keys)) (keysChars ks ++ rest) o rest ∧ o.getD [] = ks := by
  cases ks with
  | nil =>
    have bare : Refuses (Reader.inlineBlanks1 *> keys) rest := by simpa [KeysEnd] using ends
    exact ⟨none, bare.optional, rfl⟩
  | cons k ks =>
    have noMore : Refuses (comma *> anyKey) rest := by simpa [KeysEnd] using ends
    exact ⟨_, reads_keysChars known (Reader.reads_many_none noMore), List.append_nil _⟩

theorem refuses_keys_of_first (first : ∀ c ∈ rest.head?, c ∉ ['P', 'F', 'U']) : Refuses keys rest := by
  have firsts : ∀ p ∈ keyNames.map fun k => (k, k), p.1.toList.head?.any (· ∈ ['P', 'F', 'U']) := by decide
  refine Refuses.bind (Reader.refuses_oneOf fun p there starts => ?_) _
  have letter := firsts p there
  obtain ⟨more, rfl⟩ := starts
  cases split : p.1.toList with
  | nil =>
    rw [split] at letter
    cases letter
  | cons c cs =>
    rw [split] at first letter
    exact first c rfl (by simpa using letter)

/-- A quote is no key, with or without a comma. -/
theorem keysEnd_quote (ks : List String) (cs : List Char) : KeysEnd ks (' ' :: '"' :: cs) := by
  have quote : Stops Text.isInlineBlank ('"' :: cs) := (Reader.stops_cons _ '"' cs).2 (by decide)
  unfold KeysEnd
  split
  · exact (Reader.reads_space1 quote).refuses_seqRight (refuses_keys_of_first (by simp))
  · have noComma : Refuses (Reader.token ",") ('"' :: cs) := Reader.refuses_token (by simp)
    exact (((Reader.reads_space quote).refuses_seqRight noComma).seqRight _).seqRight _

theorem keysEnd_nil (ks : List String) : KeysEnd ks [] := by
  unfold KeysEnd
  split
  · exact (Reader.refuses_inlineBlanks1 (by simp)).seqRight _
  · have noComma : Refuses (Reader.token ",") [] := Reader.refuses_token (by decide)
    exact (((Reader.reads_noBlanks (by simp)).refuses_seqRight noComma).seqRight _).seqRight _

/-! #### The attribute -/

/-- What comes behind an attribute neither goes on with its last word nor is a key or comment of it. -/
structure Attribute.EndsAt (a : Attribute) (rest : List Char) : Prop where
  word : Stops (fun c => !endsWord c) rest
  keys : a.comment = none → KeysEnd a.keys rest
  comment : a.comment = none → Refuses (Reader.inlineBlanks1 *> Reader.quoted) rest

theorem Attribute.endsAt_nil (a : Attribute) : a.EndsAt [] where
  word := Reader.stops_nil _
  keys _ := keysEnd_nil a.keys
  comment _ := (Reader.refuses_inlineBlanks1 (by simp)).seqRight _

theorem Attribute.IsWritten.first {a : Attribute} (written : a.IsWritten) (rest : List Char) :
    ∃ c cs, a.chars ++ rest = c :: cs ∧ c ∈ a.dataType.toList := by
  obtain ⟨c, cs, split⟩ := List.exists_cons_of_ne_nil written.dataType.some
  exact ⟨c, _, by rw [Attribute.chars, split]; rfl, by simp [split]⟩

/-- Neither a key nor a comment goes on with a word. -/
theorem stops_keysChars (a : Attribute) (word : Stops (fun c => !endsWord c) rest) :
    Stops (fun c => !endsWord c) (keysChars a.keys ++ (commentChars a.comment ++ rest)) := by
  unfold keysChars
  split
  · cases a.comment with
    | none => exact word
    | some s => exact (Reader.stops_cons _ ' ' _).2 (by decide)
  · exact (Reader.stops_cons _ ' ' _).2 (by decide)

theorem Attribute.chars_append (a : Attribute) (rest : List Char) : a.chars ++ rest = a.dataType.toList ++
    ' ' :: (a.name.toList ++ (keysChars a.keys ++ (commentChars a.comment ++ rest))) := by
  simp [Attribute.chars]

/-- Up to its keys an attribute is read whatever comes behind it. -/
theorem reads_words {β : Type} {a : Attribute} (written : a.IsWritten) {after : String → String → Reader β} {b : β}
    {last : List Char} (word : Stops (fun c => !endsWord c) rest)
    (next : Reads (after a.dataType a.name) (keysChars a.keys ++ (commentChars a.comment ++ rest)) b last) :
    Reads (do let dataType ← Entities.word; Reader.inlineBlanks1; let name ← Entities.word; after dataType name)
      (a.chars ++ rest) b last := by
  rw [a.chars_append]
  exact (reads_word written.dataType ((Reader.stops_cons _ ' ' _).2 (by decide))).bind
    ((Reader.reads_space1 (written.name.stops _)).bind ((reads_word written.name (stops_keysChars a word)).bind next))

theorem reads_optionalComment {comment : Option String}
    (ends : comment = none → Refuses (Reader.inlineBlanks1 *> Reader.quoted) rest) :
    Reads (optional (Reader.inlineBlanks1 *> Reader.quoted)) (commentChars comment ++ rest)
      (comment.map Text.requoted) rest := by
  cases comment with
  | none => exact (ends rfl).optional
  | some s =>
    have quote : Stops Text.isInlineBlank ((Text.quoted s).toList ++ rest) := by
      rw [Text.toList_quoted, List.cons_append, Reader.stops_cons]
      decide
    exact ((Reader.reads_space1 quote).seqRight (Text.reads_quoted s rest)).optional

theorem reads_attribute {a : Attribute} (written : a.IsWritten) (ends : a.EndsAt rest) :
    Reads attributeReader (a.chars ++ rest) a.carried rest := by
  have keysEnd : KeysEnd a.keys (commentChars a.comment ++ rest) := by
    cases given : a.comment with
    | none => exact ends.keys given
    | some s =>
      have quote := keysEnd_quote a.keys (Text.encodeQuotes s.toList ++ '"' :: rest)
      simpa [commentChars, Text.toList_quoted] using quote
  obtain ⟨o, keysRead, given⟩ := reads_optionalKeys written.keys keysEnd
  refine reads_words written ends.word (keysRead.bind ((reads_optionalComment ends.comment).bind ?_))
  rw [given]
  exact Reads.pure a.carried rest

/-- A line that adds an attribute to the entity whose block is open. -/
structure Adds (line : String) (a : Attribute) : Prop where
  statement : Source.IsStatement line.toList
  brace : '\x7d' ∉ line.toList
  reads : attributes? (Text.trim line.toList) = some [a]

/-- The line of an attribute without its indentation. -/
def Attribute.text (a : Attribute) : String :=
  let keysText := if a.keys = [] then "" else " " ++ ", ".intercalate a.keys
  let commentText := match a.comment with
    | some comment => " " ++ Text.quoted comment
    | none => ""
  a.dataType ++ " " ++ a.name ++ keysText ++ commentText

theorem Attribute.toList_text (a : Attribute) : a.text.toList = a.chars := by
  obtain ⟨dataType, name, keys, comment⟩ := a
  by_cases none : keys = [] <;> cases comment <;>
    simp [Attribute.text, Attribute.chars, keysChars, commentChars, none]

/-! #### The line of an attribute -/

theorem endsSolid_keysChars {ks : List String} (known : ∀ l ∈ ks, l ∈ keyNames) :
    EndsSolid (keysChars ks) := by
  have key : ∀ l ∈ keyNames, l.toList ≠ [] ∧ EndsSolid l.toList := by decide
  have later {ls : List String} (among : ∀ l ∈ ls, l ∈ keyNames) :
      EndsSolid (ls.flatMap fun l => ',' :: ' ' :: l.toList) := by
    induction ls with
    | nil => simp [EndsSolid]
    | cons l ls ih =>
      rw [List.forall_mem_cons] at among
      obtain ⟨some, solid⟩ := key l among.1
      exact (solid.append_of_ne_nil some [',', ' ']).append (ih among.2)
  cases ks with
  | nil => simp [keysChars, EndsSolid]
  | cons k ks =>
    rw [List.forall_mem_cons] at known
    obtain ⟨some, solid⟩ := key k known.1
    rw [keysChars, if_neg (List.cons_ne_nil k ks), toList_intercalate]
    exact (solid.append_of_ne_nil some [' ']).append (later known.2)

theorem endsSolid_commentChars (comment : Option String) : EndsSolid (commentChars comment) := by
  cases comment with
  | none => simp [commentChars, EndsSolid]
  | some s =>
    have split : commentChars (some s) = (' ' :: '"' :: Text.encodeQuotes s.toList) ++ ['"'] := by
      simp [commentChars, Text.toList_quoted]
    rw [split]
    exact EndsSolid.append_of_ne_nil (List.cons_ne_nil _ _) (by simp [EndsSolid]; decide) _

theorem trim_chars {a : Attribute} (written : a.IsWritten) : Text.trim a.chars = a.chars := by
  have solid {s : String} (isWord : IsAttributeWord s) : EndsSolid s.toList :=
    fun c h => isWord.solid c (List.mem_of_getLast? h)
  have name := (solid written.name).append
    ((endsSolid_keysChars written.keys).append (endsSolid_commentChars a.comment))
  have some : a.name.toList ++ (keysChars a.keys ++ commentChars a.comment) ≠ [] := by
    simp [written.name.some]
  apply Text.trim_eq_self
  · intro c h
    cases split : a.dataType.toList with
    | nil => exact absurd split written.dataType.some
    | cons d ds =>
      obtain rfl : d = c := by simpa [Attribute.chars, split] using h
      exact written.dataType.solid d (by simp [split])
  · have whole := name.append_of_ne_nil some (a.dataType.toList ++ [' '])
    rwa [List.append_assoc] at whole

theorem Attribute.IsWritten.endsSolid {a : Attribute} (written : a.IsWritten) : EndsSolid a.chars :=
  fun _ last => Text.not_isBlank_of_getLast?_trim (by rw [trim_chars written]; exact last)

theorem not_mem_keysChars {ks : List String} (known : ∀ l ∈ ks, l ∈ keyNames) {c : Char}
    (other : c ∉ ['P', 'F', 'U', 'K', ',', ' ']) : c ∉ keysChars ks := by
  have key : ∀ l ∈ keyNames, l.toList ⊆ ['P', 'F', 'U', 'K', ',', ' '] := by decide
  cases ks with
  | nil => simp [keysChars]
  | cons k ks =>
    rw [List.forall_mem_cons] at known
    have space : c ≠ ' ' := by
      rintro rfl
      exact other (by decide)
    have comma : c ≠ ',' := by
      rintro rfl
      exact other (by decide)
    rw [keysChars, if_neg (List.cons_ne_nil k ks), toList_intercalate]
    simp only [List.mem_cons, List.mem_append, List.mem_flatMap, not_or, not_exists, not_and]
    exact ⟨space, fun h => other (key k known.1 h),
      fun l there => ⟨comma, space, fun h => other (key l (known.2 l there) h)⟩⟩

/-- An attribute without a closing brace is written without one. -/
theorem brace_not_mem_chars {a : Attribute} (known : ∀ l ∈ a.keys, l ∈ keyNames) (clean : ¬ a.HasBrace) :
    '\x7d' ∉ a.chars := by
  have comment : '\x7d' ∉ commentChars a.comment := by
    cases given : a.comment with
    | none => simp [commentChars]
    | some s =>
      have inside : '\x7d' ∉ Text.encodeQuotes s.toList := fun h =>
        clean (.inr (.inr ⟨s, given, Text.mem_of_mem_singleLine (by decide)
          (Text.mem_singleLine_of_mem_encodeQuotes (by decide) h)⟩))
      simp [commentChars, Text.toList_quoted, inside]
  simp only [Attribute.chars, List.mem_append, List.mem_cons, not_or]
  exact ⟨fun h => clean (.inl h), by decide, fun h => clean (.inr (.inl h)), not_mem_keysChars known (by decide), comment⟩

theorem break_not_mem_chars {a : Attribute} (written : a.IsWritten) : '\n' ∉ a.chars := by
  have unbroken {s : String} (isWord : IsAttributeWord s) : '\n' ∉ s.toList :=
    fun h => absurd (isWord.solid _ h) (by decide)
  have comment : '\n' ∉ commentChars a.comment := by
    cases a.comment with
    | none => simp [commentChars]
    | some s => simp [commentChars, Text.not_mem_quoted s]
  simp only [Attribute.chars, List.mem_append, List.mem_cons, not_or]
  exact ⟨unbroken written.dataType, by decide, unbroken written.name, not_mem_keysChars written.keys (by decide), comment⟩

theorem adds_attribute {a : Attribute} (textual : a.IsTextual) : Adds a.text a := by
  have tight := trim_chars textual.isWritten
  have read := reads_attribute textual.isWritten a.endsAt_nil
  rw [List.append_nil, textual.carried] at read
  have one : Reads (Reader.sepBy attributeReader Reader.inlineBlanks1) a.chars [a] [] :=
    (read.bind ((Reader.reads_many_nil _).bind (Reads.pure [a] []))).orElse
  refine ⟨⟨?_, ?_, ?_⟩, ?_, ?_⟩ <;> rw [a.toList_text]
  · exact break_not_mem_chars textual.isWritten
  · rw [tight]
    simp [Attribute.chars]
  · rw [tight]
    intro comment
    have mark : ∀ c ∈ Source.commentMark, c == '%' := Text.forall_mem_of_all rfl
    exact textual.noComment
      (Reader.prefix_of_stops mark ((Reader.stops_cons _ ' ' _).2 (by decide)) comment)
  · exact brace_not_mem_chars textual.keys textual.isWritten.clean
  · rw [attributes?, Text.trim_trim, tight]
    exact Reader.whole?_of_reads one

/-! ### Statements -/

abbrev Says (line : String) (s : Statement) : Prop := Source.Says statement line s

/-- What stands behind the name of an entity: the attributes there, and whether a block is left open. -/
inductive Opening : List Char → List Attribute → Bool → Prop where
  | none : Opening [] [] false
  | brace : Opening [' ', '\x7b'] [] true
  | block (inner : List Char) (free : '\x7d' ∉ inner) :
      Opening (' ' :: '\x7b' :: (inner ++ ['\x7d'])) ((attributes? inner).getD []) false

section Entity

variable {tail : List Char} {attributes : List Attribute} {opens : Bool}

theorem reads_block (body : List Char) : Reads block (' ' :: '\x7b' :: body) body [] := by
  have blank : Reads Reader.inlineBlanks (' ' :: '\x7b' :: body) () ('\x7b' :: body) :=
    Reader.reads_space ((Reader.stops_cons _ '\x7b' body).2 (by decide))
  have brace : Reads (Reader.token "\x7b") ('\x7b' :: body) () body := Reader.reads_token_char rfl body
  exact (blank.seqRight brace).seqRight (Reader.reads_rest body)

theorem Opening.stops (opening : Opening tail attributes opens) : Stops Text.isNameChar tail := by
  cases opening with
  | none => exact Reader.stops_nil _
  | brace => exact (Reader.stops_cons _ ' ' _).2 (by decide)
  | block inner free => exact (Reader.stops_cons _ ' ' _).2 (by decide)

theorem reads_entity (isName : IsName name) (opening : Opening tail attributes opens) :
    Reads entity (name.toList ++ tail) (.entity name attributes opens) [] := by
  refine (reads_entityName isName opening.stops).bind ?_
  cases opening with
  | none =>
    have noBlock : Refuses block [] :=
      ((Reader.reads_noBlanks (by simp)).refuses_seqRight (Reader.refuses_token (by decide))).seqRight _
    exact noBlock.optional.bind (Reader.reads_atEnd.bind (Reads.pure _ []))
  | brace => exact (reads_block []).optional.bind (Reader.reads_atEnd.bind (Reads.pure _ []))
  | block inner free =>
    refine (reads_block (inner ++ ['\x7d'])).optional.bind (Reader.reads_atEnd.bind ?_)
    dsimp only
    rw [Text.cut?_append free]
    exact Reads.pure _ []

/-- No cardinality stands behind the name of an entity. -/
theorem refuses_relationship (isName : IsName name) (opening : Opening tail attributes opens) :
    Refuses relationship (name.toList ++ tail) := by
  have firsts : ∀ p ∈ Cardinality.all.map fun c => (c.leftMarker, c), p.1.toList ≠ [] ∧ p.1.toList.head? ≠ some '\x7b' := by
    decide
  have noMarker (body : List Char) : Refuses Cardinality.leftReader ('\x7b' :: body) := by
    refine Reader.refuses_oneOf fun p there => ?_
    obtain ⟨c, cs, split⟩ := List.exists_cons_of_ne_nil (firsts p there).1
    rw [split]
    intro starts
    obtain ⟨rfl, -⟩ := List.cons_prefix_cons.1 starts
    exact (firsts p there).2 (by rw [split]; rfl)
  have noBody (body : List Char) : Reads Reader.inlineBlanks (' ' :: '\x7b' :: body) () ('\x7b' :: body) :=
    Reader.reads_space ((Reader.stops_cons _ '\x7b' body).2 (by decide))
  refine (reads_entityName isName opening.stops).refuses_bind ?_
  cases opening with
  | none =>
    have nothing : Refuses Cardinality.leftReader [] :=
      Reader.refuses_oneOf fun p there starts => (firsts p there).1 (List.prefix_nil.1 starts)
    exact (Reader.reads_noBlanks (by simp)).refuses_bind (nothing.bind _)
  | brace => exact (noBody []).refuses_bind ((noMarker []).bind _)
  | block inner free => exact (noBody _).refuses_bind ((noMarker _).bind _)

/-- The line of an entity: alone, with the brace that opens its block, or with the whole block. -/
theorem says_entity {line : String} (isName : IsName name) (opening : Opening tail attributes opens)
    (unbroken : '\n' ∉ tail) (split : line.toList = name.toList ++ tail) :
    Says line (.entity name attributes opens) := by
  refine ⟨⟨?_, ?_, ?_⟩, ?_⟩ <;> rw [split]
  · exact isName.first_line tail
  · rw [List.mem_append, not_or]
    exact ⟨isName.unbroken, unbroken⟩
  · cases opening with
    | none => rw [List.append_nil, isName.tight]
    | brace => exact isName.trim_append [' '] (List.cons_ne_nil _ _) (by decide)
    | block inner free => exact isName.trim_append (' ' :: '\x7b' :: inner) (List.cons_ne_nil _ _) (by decide)
  · exact (refuses_relationship isName opening).orElse (reads_entity isName opening).orElse

end Entity

/-! ### Relationships -/

namespace Cardinality

theorem mem_all (c : Cardinality) : c ∈ all := by cases c <;> decide

theorem reads_left (c : Cardinality) (rest : List Char) :
    Reads leftReader (c.leftMarker.toList ++ rest) c rest := by
  have earlier : ∀ b ∈ all.takeWhile (· ≠ c), ¬ b.leftMarker.toList <+: c.leftMarker.toList ∧
      b.leftMarker.toList.length = c.leftMarker.toList.length := by cases c <;> decide
  refine Reader.reads_oneOf_map c.mem_all fun b h starts => (earlier b h).1 ?_
  exact List.prefix_of_prefix_length_le starts (List.prefix_append _ rest) (Nat.le_of_eq (earlier b h).2)

theorem reads_right (c : Cardinality) (rest : List Char) :
    Reads rightReader (c.rightMarker.toList ++ rest) c rest := by
  have earlier : ∀ b ∈ all.takeWhile (· ≠ c), ¬ b.rightMarker.toList <+: c.rightMarker.toList ∧
      b.rightMarker.toList.length = c.rightMarker.toList.length := by cases c <;> decide
  refine Reader.reads_oneOf_map c.mem_all fun b h starts => (earlier b h).1 ?_
  exact List.prefix_of_prefix_length_le starts (List.prefix_append _ rest) (Nat.le_of_eq (earlier b h).2)

theorem ofKey_key (c : Cardinality) : ofKey c.key = c := by cases c <;> decide

end Cardinality

namespace Line

theorem reads_line (l : Line) (rest : List Char) : Reads reader (l.token.toList ++ rest) l rest := by
  have earlier : ∀ b ∈ all.takeWhile (· ≠ l), b.token.toList.head?.any fun c =>
      l.token.toList.head?.any (c != ·) := by cases l <;> decide
  exact Reader.reads_oneOf_map (by cases l <;> decide) fun b h => Text.not_prefix_of_first (earlier b h)

theorem ofKey_key (l : Line) : ofKey l.key = l := by cases l <;> decide

end Line

/-- A relationship as it is written, up to its label. -/
def relationshipChars (source target : String) (left right : Cardinality) (line : Line)
    (rest : List Char) : List Char :=
  source.toList ++ ' ' :: (left.leftMarker.toList ++ (line.token.toList ++ (right.rightMarker.toList ++
    ' ' :: (target.toList ++ ' ' :: ':' :: ' ' :: rest))))

/-- A label is written bare as a name, or in quotes. -/
theorem labelText_cases (text : String) :
    IsName text ∧ labelText text = text ∨ labelText text = Text.quoted text := by
  unfold labelText
  split
  · next bare =>
    exact .inl ⟨⟨mt String.toList_eq_nil_iff.1 bare.1, List.all_eq_true.1 bare.2⟩, rfl⟩
  · exact .inr rfl

/-- A label is read back as quotes carry it, also a name that has none. -/
theorem reads_labelText (text : String) :
    Reads label (' ' :: ':' :: ' ' :: (labelText text).toList) (Text.requoted text) [] := by
  have colon (cs : List Char) : Reads (Reader.token ":") (':' :: cs) () cs := Reader.reads_token_char rfl cs
  have toColon (cs : List Char) : Reads Reader.inlineBlanks (' ' :: ':' :: cs) () (':' :: cs) :=
    Reader.reads_space (by simp; decide)
  have atEnd : Reads Reader.inlineBlanks [] () [] := Reader.reads_noBlanks (by simp)
  rcases labelText_cases text with ⟨isName, same⟩ | same <;> rw [same]
  · obtain ⟨c, cs, split, first⟩ := isName.first []
    rw [List.append_nil] at split
    have stops := isName.stops []
    rw [List.append_nil] at stops
    have noQuote : Refuses Reader.quoted text.toList := by
      apply Reader.refuses_quoted
      rw [split]
      intro quote
      obtain ⟨rfl, -⟩ := List.cons_prefix_cons.1 quote
      exact absurd first (by decide)
    have tight : Text.trimmed text = text := by rw [Text.trimmed, isName.tight, String.ofList_toList]
    rw [isName.quotable.requoted]
    exact (toColon _).bind ((colon _).bind ((Reader.reads_space stops).bind
      ((noQuote.orElse (Reader.reads_tight tight)).bind (atEnd.bind (Reads.pure text [])))))
  · have taken := Text.reads_quoted text []
    rw [List.append_nil] at taken
    have stops : Stops Text.isInlineBlank (Text.quoted text).toList := by
      rw [Text.toList_quoted, Reader.stops_cons]
      decide
    exact (toColon _).bind ((colon _).bind ((Reader.reads_space stops).bind
      (taken.orElse.bind (atEnd.bind (Reads.pure _ [])))))

theorem reads_relationship (isName : IsName source) (isName' : IsName target) (left right : Cardinality)
    (line : Line) (text : String) :
    Reads relationship (relationshipChars source target left right line (labelText text).toList)
      (.relationship source target left right line (Text.requoted text)) [] := by
  have space (cs : List Char) : Stops Text.isNameChar (' ' :: cs) := (Reader.stops_cons _ ' ' cs).2 (by decide)
  have marker (rest : List Char) : Stops Text.isInlineBlank (left.leftMarker.toList ++ rest) :=
    Reader.stops_append (by cases left <;> decide) rest
  exact (reads_entityName isName (space _)).bind ((Reader.reads_space (marker _)).bind
    ((left.reads_left _).bind ((line.reads_line _).bind ((right.reads_right _).bind
      ((Reader.reads_space (isName'.stops _)).bind ((reads_entityName isName' (space _)).bind
        ((reads_labelText text).optional.bind (Reader.reads_atEnd.bind (Reads.pure _ [])))))))))

/-- What source shows of a relationship. -/
structure Bond where
  source : String
  target : String
  kind : String
  left : Option String
  right : Option String
  label : String
deriving DecidableEq, Repr

def bond (c : Connection) : Bond :=
  ⟨c.source, c.target, c.kind, c.property? leftKey, c.property? rightKey, c.label⟩

/-- A relationship that source can carry. -/
structure Bond.IsTextual (b : Bond) : Prop where
  kind : b.kind ∈ Line.all.map Line.key
  left : ∃ c ∈ Cardinality.all, b.left = some c.key
  right : ∃ c ∈ Cardinality.all, b.right = some c.key
  label : IsQuotable b.label

instance (b : Bond) : Decidable b.IsTextual :=
  decidable_of_iff (b.kind ∈ Line.all.map Line.key ∧ (∃ c ∈ Cardinality.all, b.left = some c.key) ∧
      (∃ c ∈ Cardinality.all, b.right = some c.key) ∧ IsQuotable b.label)
    ⟨fun ⟨k, l, r, t⟩ => ⟨k, l, r, t⟩, fun h => ⟨h.kind, h.left, h.right, h.label⟩⟩

/-- A relationship with its label as quotes carry it. -/
def reread (c : Connection) : Connection := { c with label := Text.requoted c.label }

theorem reread_eq_self {c : Connection} (quotable : IsQuotable c.label) : reread c = c := by
  rw [reread, quotable.requoted]

/-- What the line of a relationship says. -/
def relationshipStatement (c : Connection) : Statement :=
  .relationship c.source c.target (cardinalityOf c leftKey) (cardinalityOf c rightKey) (Line.ofKey c.kind)
    c.label

theorem not_mem_labelText (text : String) : '\n' ∉ (labelText text).toList := by
  rcases labelText_cases text with ⟨isName, same⟩ | same <;> rw [same]
  · exact isName.unbroken
  · exact Text.not_mem_quoted text

theorem trim_labelText (text : String) :
    Text.trim (labelText text).toList = (labelText text).toList ∧ (labelText text).toList ≠ [] := by
  rcases labelText_cases text with ⟨isName, same⟩ | same <;> rw [same]
  · exact ⟨isName.tight, isName.some⟩
  · rw [Text.toList_quoted]
    exact ⟨Source.trim_of_ends (by decide) (by decide), List.cons_ne_nil _ _⟩

theorem toList_relationshipText (c : Connection) : (relationshipText c).toList =
    relationshipChars c.source c.target (cardinalityOf c leftKey) (cardinalityOf c rightKey)
      (Line.ofKey c.kind) (labelText c.label).toList := by
  simp [relationshipText, relationshipChars]

/-- Between a name and the end of a label no blank stands at an end. -/
theorem trim_relationshipText {c : Connection} (source : IsName c.source) :
    Text.trim (relationshipText c).toList = (relationshipText c).toList := by
  obtain ⟨tight, some⟩ := trim_labelText c.label
  have whole := source.trim_append (' ' :: ((cardinalityOf c leftKey).leftMarker.toList ++
    ((Line.ofKey c.kind).token.toList ++ ((cardinalityOf c rightKey).rightMarker.toList ++
      ' ' :: (c.target.toList ++ [' ', ':', ' ']))))) some tight
  simpa [toList_relationshipText, relationshipChars] using whole

theorem says_relationshipText {c : Connection} (source : IsName c.source) (target : IsName c.target) :
    Says (relationshipText c) (relationshipStatement (reread c)) := by
  have markers : '\n' ∉ (cardinalityOf c leftKey).leftMarker.toList ∧
      '\n' ∉ (Line.ofKey c.kind).token.toList ∧ '\n' ∉ (cardinalityOf c rightKey).rightMarker.toList :=
    ⟨by cases cardinalityOf c leftKey <;> decide, by cases Line.ofKey c.kind <;> decide,
      by cases cardinalityOf c rightKey <;> decide⟩
  refine ⟨⟨?_, ?_, trim_relationshipText source⟩, ?_⟩ <;> rw [toList_relationshipText]
  · exact source.first_line _
  · simp only [relationshipChars, List.mem_append, List.mem_cons, not_or]
    exact ⟨source.unbroken, by decide, markers.1, markers.2.1, markers.2.2, by decide, target.unbroken,
      by decide, by decide, by decide, not_mem_labelText _⟩
  · exact (reads_relationship source target _ _ _ _).orElse

end DiagramText.Entities
