import DiagramText.Proofs.Entities.Block

/-! A block on one line. Nothing but blanks stands between its attributes, and keys are taken wherever
one starts the next word; so an attribute without keys and comment runs into one whose type starts
like a key. But for that, the line says what the lines of the block say. -/
namespace DiagramText.Entities

open Reader (Reads Refuses Stops)
open Text (EndsSolid)

variable {cs rest more : List Char} {a b : Attribute} {as : List Attribute} {name : String}

/-! ### Where an attribute ends -/

/-- The text starts with one of the keys, as a word of its own or as the start of one. -/
def BeginsWithKey (cs : List Char) : Prop := ∃ k ∈ keyNames, k.toList <+: cs

instance (cs : List Char) : Decidable (BeginsWithKey cs) :=
  inferInstanceAs (Decidable (∃ k ∈ keyNames, k.toList <+: cs))

/-- What stands behind the comma, if an attribute starts with one. -/
def Attribute.afterComma? (a : Attribute) : Option (List Char) :=
  match a.dataType.toList with
  | [','] => some a.name.toList
  | ',' :: cs => some cs
  | _ => none

/-- An attribute takes the start of the next one for a key of its own. -/
def Attribute.RunsInto (a b : Attribute) : Prop :=
  a.comment = none ∧
    if a.keys = [] then BeginsWithKey b.dataType.toList else ∃ cs ∈ b.afterComma?, BeginsWithKey cs

instance (a b : Attribute) : Decidable (a.RunsInto b) :=
  inferInstanceAs (Decidable (a.comment = none ∧
    if a.keys = [] then BeginsWithKey b.dataType.toList else ∃ cs ∈ b.afterComma?, BeginsWithKey cs))

theorem beginsWithKey_append (stops : Stops (fun c => !endsWord c) rest) :
    BeginsWithKey (cs ++ rest) ↔ BeginsWithKey cs := by
  have letters : ∀ k ∈ keyNames, k.toList.all fun c => !endsWord c := by decide
  constructor
  · rintro ⟨k, known, starts⟩
    exact ⟨k, known, Reader.prefix_of_stops (List.all_eq_true.1 (letters k known)) stops starts⟩
  · rintro ⟨k, known, starts⟩
    exact ⟨k, known, starts.trans (List.prefix_append cs rest)⟩

theorem refuses_anyKey (none : ¬ BeginsWithKey cs) : Refuses anyKey cs := by
  refine Reader.refuses_oneOf fun p there starts => none ?_
  obtain ⟨k, known, rfl⟩ := List.mem_map.1 there
  exact ⟨k, known, starts⟩

theorem exists_reads_anyKey (starts : BeginsWithKey cs) : ∃ k rest, Reads anyKey cs k rest := by
  obtain ⟨k, known, rest, rfl⟩ := starts
  exact ⟨k, rest, reads_key known rest⟩

/-! ### The next attribute -/

/-- The blank before an attribute. -/
theorem reads_gap (written : b.IsWritten) (more : List Char) :
    Reads Reader.inlineBlanks (' ' :: (b.chars ++ more)) () (b.chars ++ more) ∧
      Reads Reader.inlineBlanks1 (' ' :: (b.chars ++ more)) () (b.chars ++ more) := by
  have stops : Stops Text.isInlineBlank (b.chars ++ more) := by
    rw [b.chars_append]
    exact written.dataType.stops _
  exact ⟨Reader.reads_space stops, Reader.reads_space1 stops⟩

theorem beginsWithKey_chars (b : Attribute) (more : List Char) :
    BeginsWithKey (b.chars ++ more) ↔ BeginsWithKey b.dataType.toList := by
  rw [b.chars_append]
  exact beginsWithKey_append ((Reader.stops_cons _ ' ' _).2 (by decide))

/-- Where the next attribute starts with a comma, what comes behind it is tried as a key. -/
theorem reads_comma (written : b.IsWritten) (word : Stops (fun c => !endsWord c) more) (behind : b.afterComma? = some cs) :
    ∃ tail, Stops (fun c => !endsWord c) tail ∧ Reads comma (' ' :: (b.chars ++ more)) () (cs ++ tail) := by
  obtain ⟨gap, -⟩ := reads_gap written more
  rw [b.chars_append] at gap ⊢
  unfold Attribute.afterComma? at behind
  split at behind
  · next alone =>
    obtain rfl := Option.some.inj behind
    rw [alone] at gap ⊢
    exact ⟨_, stops_keysChars b word, (gap.seqRight (Reader.reads_token_char rfl _)).seqRight
      (Reader.reads_space (written.name.stops _))⟩
  · next tail apart longer =>
    obtain rfl := Option.some.inj behind
    have solid (rest : List Char) : Stops Text.isInlineBlank (tail ++ rest) := by
      cases tail with
      | nil => exact (apart rfl).elim
      | cons c tail =>
        exact (Reader.stops_cons _ c _).2 (written.dataType.isInlineBlank c (by simp [longer]))
    rw [longer] at gap ⊢
    exact ⟨_, (Reader.stops_cons _ ' ' _).2 (by decide), (gap.seqRight (Reader.reads_token_char rfl _)).seqRight
      (Reader.reads_noBlanks (solid _))⟩
  · cases behind

theorem refuses_comma (written : b.IsWritten) (none : b.afterComma? = none) :
    Refuses comma (' ' :: (b.chars ++ more)) := by
  obtain ⟨gap, -⟩ := reads_gap written more
  refine (gap.refuses_seqRight (Reader.refuses_token fun starts => ?_)).seqRight _
  unfold Attribute.afterComma? at none
  split at none
  · cases none
  · cases none
  · next apart =>
    obtain ⟨c, cs, split⟩ := List.exists_cons_of_ne_nil written.dataType.some
    rw [b.chars_append, split] at starts
    obtain ⟨rfl, -⟩ := List.cons_prefix_cons.1 starts
    exact apart cs split

/-- Where an attribute does not run into the next, it ends before it. -/
theorem endsAt_of_apart (written : b.IsWritten) (word : Stops (fun c => !endsWord c) more) (apart : ¬ a.RunsInto b) :
    a.EndsAt (' ' :: (b.chars ++ more)) where
  word := (Reader.stops_cons _ ' ' _).2 (by decide)
  keys bare := by
    obtain ⟨gap, gap1⟩ := reads_gap written more
    unfold Attribute.RunsInto at apart
    unfold KeysEnd
    split
    · next none =>
      rw [if_pos none] at apart
      have noKey : ¬ BeginsWithKey (b.chars ++ more) := fun starts => apart ⟨bare, (beginsWithKey_chars b more).1 starts⟩
      exact gap1.refuses_seqRight ((refuses_anyKey noKey).bind _)
    · next keyed =>
      rw [if_neg keyed] at apart
      cases behind : b.afterComma? with
      | none => exact (refuses_comma written behind).seqRight _
      | some cs =>
        obtain ⟨tail, stops, read⟩ := reads_comma written word behind
        have noKey : ¬ BeginsWithKey (cs ++ tail) := fun starts =>
          apart ⟨bare, cs, behind, (beginsWithKey_append stops).1 starts⟩
        exact read.refuses_seqRight (refuses_anyKey noKey)
  comment bare := by
    obtain ⟨-, gap1⟩ := reads_gap written more
    refine gap1.refuses_seqRight (Reader.refuses_quoted fun quote => ?_)
    obtain ⟨c, cs, split, first⟩ := written.first more
    rw [split] at quote
    obtain ⟨rfl, -⟩ := List.cons_prefix_cons.1 quote
    exact written.dataType.quote first

/-- Where it runs into the next, more keys are read than it has. -/
theorem reads_of_runsInto (written : a.IsWritten) (next : b.IsWritten) (word : Stops (fun c => !endsWord c) more)
    (runs : a.RunsInto b) :
    ∃ c left, Reads attributeReader (a.chars ++ ' ' :: (b.chars ++ more)) c left ∧ c.keys ≠ a.keys := by
  obtain ⟨bare, starts⟩ := runs
  obtain ⟨-, gap1⟩ := reads_gap next more
  obtain ⟨ks, left, taken, other⟩ : ∃ ks left, Reads (optional (Reader.inlineBlanks1 *> keys))
      (keysChars a.keys ++ ' ' :: (b.chars ++ more)) (some ks) left ∧ ks ≠ a.keys := by
    cases given : a.keys with
    | nil =>
      rw [if_pos given, ← beginsWithKey_chars b more] at starts
      obtain ⟨k, tail, first⟩ := exists_reads_anyKey starts
      obtain ⟨ks, left, others⟩ := Reader.exists_reads_many (comma *> anyKey) tail
      exact ⟨k :: ks, left, (gap1.seqRight (first.bind (others.bind (Reads.pure (k :: ks) left)))).optional, List.cons_ne_nil _ _⟩
    | cons k ks =>
      rw [if_neg (by simp [given])] at starts
      obtain ⟨cs, behind, start⟩ := starts
      obtain ⟨tail, stops, separated⟩ := reads_comma next word behind
      obtain ⟨l, after, first⟩ := exists_reads_anyKey ((beginsWithKey_append stops).2 start)
      obtain ⟨ls, left, others⟩ := Reader.exists_reads_many (comma *> anyKey) after
      have behindKeys := Reader.reads_many_cons consumes_nextKey (separated.seqRight first) others
      exact ⟨_, left, reads_keysChars (given ▸ written.keys) behindKeys, by simp⟩
  obtain ⟨o, last, comment⟩ := Reader.exists_reads_optional (Reader.inlineBlanks1 *> Reader.quoted) left
  refine ⟨⟨a.dataType, a.name, ks, o⟩, last, reads_words written ((Reader.stops_cons _ ' ' _).2 (by decide)) ?_, other⟩
  rw [bare]
  exact taken.bind (comment.bind (Reads.pure _ last))

/-! ### Attributes one after the other -/

/-- The attributes behind the first, a blank before each. -/
def tailChars (as : List Attribute) : List Char := as.flatMap fun b => ' ' :: b.chars

theorem tailChars_cons (b : Attribute) (as : List Attribute) :
    tailChars (b :: as) = ' ' :: (b.chars ++ tailChars as) := by simp [tailChars]

theorem stops_tailChars (as : List Attribute) : Stops (fun c => !endsWord c) (tailChars as) := by
  cases as with
  | nil => exact Reader.stops_nil _
  | cons b as =>
    rw [tailChars_cons]
    exact (Reader.stops_cons _ ' ' _).2 (by decide)

theorem consumes_nextAttribute : Reader.Consumes (Reader.inlineBlanks1 *> attributeReader) :=
  Reader.consumes_inlineBlanks1.seqRight leaves_attribute

/-- Where none runs into the next, all attributes are read. -/
theorem reads_attributes (written : ∀ b ∈ a :: as, b.IsWritten) (apart : (a :: as).IsChain fun a b => ¬ a.RunsInto b) :
    Reads attributeReader (a.chars ++ tailChars as) a.carried (tailChars as) ∧
      Reads (Reader.many (Reader.inlineBlanks1 *> attributeReader)) (tailChars as) (as.map Attribute.carried) [] := by
  induction as generalizing a with
  | nil => exact ⟨reads_attribute (written a (List.mem_cons_self ..)) a.endsAt_nil, Reader.reads_many_nil _⟩
  | cons b as ih =>
    rw [List.forall_mem_cons] at written
    rw [List.isChain_cons_cons] at apart
    have next : b.IsWritten := written.2 b (List.mem_cons_self ..)
    obtain ⟨first, others⟩ := ih written.2 apart.2
    rw [tailChars_cons]
    exact ⟨reads_attribute written.1 (endsAt_of_apart next (stops_tailChars as) apart.1),
      Reader.reads_many_cons consumes_nextAttribute ((reads_gap next _).2.seqRight first) others⟩

/-- Where all attributes are read, none runs into the next. -/
theorem isChain_of_reads (written : ∀ b ∈ a :: as, b.IsWritten)
    (first : Reads attributeReader (a.chars ++ tailChars as) a.carried rest)
    (others : Reads (Reader.many (Reader.inlineBlanks1 *> attributeReader)) rest (as.map Attribute.carried) []) :
    (a :: as).IsChain fun a b => ¬ a.RunsInto b := by
  induction as generalizing a rest with
  | nil => exact .singleton a
  | cons b as ih =>
    rw [List.forall_mem_cons] at written
    have next : b.IsWritten := written.2 b (List.mem_cons_self ..)
    rw [tailChars_cons] at first
    have apart : ¬ a.RunsInto b := by
      intro runs
      obtain ⟨c, left, read, other⟩ := reads_of_runsInto written.1 next (stops_tailChars as) runs
      obtain ⟨same, -⟩ := read.inj first
      exact other (same ▸ rfl)
    have ends := reads_attribute written.1 (endsAt_of_apart next (stops_tailChars as) apart)
    obtain ⟨-, rfl⟩ := ends.inj first
    obtain ⟨mid, one, more⟩ := Reader.many_eq_cons consumes_nextAttribute others
    have one' : Reads attributeReader (b.chars ++ tailChars as) b.carried mid :=
      ((reads_gap next (tailChars as)).2.seqRight_eq attributeReader).symm.trans one
    exact .cons_cons apart (ih written.2 one' more)

/-! ### The line of a block -/

/-- An entity with its attributes between braces. -/
def inlineLine (name : String) (attributes : List Attribute) : String :=
  name ++ " \x7b " ++ " ".intercalate (attributes.map Attribute.text) ++ " \x7d"

/-- What stands between the braces. -/
def innerChars (attributes : List Attribute) : List Char :=
  ' ' :: ((" ".intercalate (attributes.map Attribute.text)).toList ++ [' '])

theorem toList_intercalate_text (a : Attribute) (as : List Attribute) :
    (" ".intercalate ((a :: as).map Attribute.text)).toList = a.chars ++ tailChars as := by
  rw [List.map_cons, Text.toList_intercalate_cons, a.toList_text, List.flatMap_map, tailChars]
  congr 1
  exact List.flatMap_congr fun b _ => congrArg (' ' :: ·) b.toList_text

theorem endsSolid_tailChars (written : ∀ b ∈ as, b.IsWritten) : EndsSolid (tailChars as) := by
  induction as with
  | nil => simp [tailChars, EndsSolid]
  | cons b as ih =>
    rw [List.forall_mem_cons] at written
    have some : b.chars ≠ [] := by
      obtain ⟨c, cs, split, -⟩ := written.1.first []
      rw [List.append_nil] at split
      exact split ▸ List.cons_ne_nil c cs
    rw [tailChars_cons, ← List.cons_append]
    exact (written.1.endsSolid.append_of_ne_nil some [' ']).append (ih written.2)

theorem trim_innerChars (written : ∀ b ∈ a :: as, b.IsWritten) :
    Text.trim (innerChars (a :: as)) = a.chars ++ tailChars as := by
  rw [List.forall_mem_cons] at written
  obtain ⟨c, cs, split, first⟩ := written.1.first (tailChars as)
  have blank : ∀ c ∈ [' '], Text.isBlank c := Text.forall_mem_of_all rfl
  rw [innerChars, toList_intercalate_text]
  rw [Text.trim_space, Text.trim_append_right blank]
  refine Text.trim_eq_self ?_ (written.1.endsSolid.append (endsSolid_tailChars written.2))
  rw [split]
  simpa using written.1.dataType.solid c first

/-- All attributes are found between the braces if none runs into the next, and otherwise not. -/
theorem attributes?_innerChars_iff (written : ∀ a ∈ as, a.IsWritten) :
    (attributes? (innerChars as)).getD [] = as.map Attribute.carried ↔ as.IsChain fun a b => ¬ a.RunsInto b := by
  cases as with
  | nil => simp [show attributes? (innerChars []) = some [] from rfl]
  | cons a as =>
    constructor
    · intro all
      cases read : attributes? (innerChars (a :: as)) with
      | none =>
        rw [read] at all
        cases all
      | some bs =>
        obtain rfl : bs = (a :: as).map Attribute.carried := by simpa [read] using all
        rw [attributes?, trim_innerChars written] at read
        rcases Reader.orElse_eq_some (Reader.whole?_eq_some read) with taken | none
        · obtain ⟨b, mid, first, after⟩ := Reader.bind_eq_some taken
          obtain ⟨bs, left, others, made⟩ := Reader.bind_eq_some after
          obtain ⟨same, rfl⟩ := Reader.pure_eq_some made
          obtain ⟨rfl, rfl⟩ := List.cons.inj same
          exact isChain_of_reads written first others
        · cases (Prod.mk.inj (Option.some.inj none)).1
    · intro apart
      obtain ⟨first, others⟩ := reads_attributes written apart
      have all : Reads (Reader.sepBy attributeReader Reader.inlineBlanks1) (a.chars ++ tailChars as)
          ((a :: as).map Attribute.carried) [] := (first.bind (others.bind (Reads.pure (a.carried :: as.map Attribute.carried) []))).orElse
      rw [attributes?, trim_innerChars written, Reader.whole?_of_reads all, Option.getD_some]

variable {now : Instant}

theorem not_mem_innerChars {c : Char} (solid : c ≠ ' ') (free : ∀ a ∈ as, c ∉ a.chars) : c ∉ innerChars as := by
  cases as with
  | nil => simpa [innerChars] using solid
  | cons a as =>
    rw [List.forall_mem_cons] at free
    rw [innerChars, toList_intercalate_text]
    simpa [tailChars, solid] using free

theorem readLine_inlineLine (isName : IsName name) (written : ∀ a ∈ as, a.IsWritten) (g : Graph) :
    Draft.readLine now ⟨g, none⟩ (inlineLine name as) =
      ⟨Draft.addAttributes (Draft.ensure now g name) name ((attributes? (innerChars as)).getD []), none⟩ := by
  have free : '\x7d' ∉ innerChars as := not_mem_innerChars (by decide) fun a there =>
    brace_not_mem_chars (written a there).keys (written a there).clean
  have whole : '\n' ∉ innerChars as := not_mem_innerChars (by decide) fun a there => break_not_mem_chars (written a there)
  have chars : (inlineLine name as).toList = name.toList ++ ' ' :: '\x7b' :: (innerChars as ++ ['\x7d']) := by
    simp [inlineLine, innerChars]
  have unbroken : '\n' ∉ ' ' :: '\x7b' :: (innerChars as ++ ['\x7d']) := by simpa using whole
  exact Draft.readLine_said (says_entity isName (.block (innerChars as) free) unbroken chars)

theorem ofText?_text (written : a.IsWritten) : Attribute.ofText? a.text.toList = some a.carried := by
  have read := reads_attribute written a.endsAt_nil
  rw [List.append_nil] at read
  rw [Attribute.ofText?, a.toList_text, trim_chars written]
  exact Reader.whole?_of_reads (read.seqLeft (Reader.reads_noBlanks (by simp)))

/-- A block says the same on one line as on the lines of its attributes if and only if no attribute
runs into the next. On lines of their own all attributes are stored, in their order. -/
theorem read_inline_iff (now : Instant) (isName : IsName name) (written : ∀ a ∈ as, a.IsWritten) :
    (read now [inlineLine name as] = read now (blockLines name (as.map Attribute.text)) ↔
        as.IsChain fun a b => ¬ a.RunsInto b) ∧
      ((read now (blockLines name (as.map Attribute.text))).elements.get? name).map storedAttributes =
        some (as.map fun a => a.carried.toJson) := by
  have accepted : (as.map Attribute.text).map (fun line => Attribute.ofText? line.toList) =
      (as.map Attribute.carried).map some := by
    rw [List.map_map, List.map_map]
    exact List.map_congr_left fun a there => ofText?_text (written a there)
  have free : ∀ line ∈ as.map Attribute.text, '\x7d' ∉ line.toList := by
    rw [List.forall_mem_map]
    intro a there
    rw [a.toList_text]
    exact brace_not_mem_chars (written a there).keys (written a there).clean
  have block : read now (blockLines name (as.map Attribute.text)) =
      Draft.addAttributes (Draft.ensure now .empty name) name (as.map Attribute.carried) := by
    rw [read, Draft.empty, foldl_readLine_blockLines isName accepted free]
  have inline : read now [inlineLine name as] =
      Draft.addAttributes (Draft.ensure now .empty name) name ((attributes? (innerChars as)).getD []) := by
    rw [read, Draft.empty, List.foldl_cons, List.foldl_nil, readLine_inlineLine isName written]
  rw [block, inline, Draft.storedAttributes_addAttributes, List.map_map, ← attributes?_innerChars_iff written]
  refine ⟨⟨fun same => ?_, fun same => by rw [same]⟩, rfl⟩
  -- What is stored tells the attributes apart.
  have alike := congrArg (fun g : Graph => (g.elements.get? name).map storedAttributes) same
  simp only [Draft.storedAttributes_addAttributes, Option.some.injEq] at alike
  rw [← filterMap_toJson ((attributes? (innerChars as)).getD []), alike, filterMap_toJson]

/-- Types like keys that are none: at the start, behind a comment, and a comma behind keys. -/
def inlineSample : List Attribute :=
  [⟨"PKey", "x", [], some "a \"key\""⟩, ⟨"FK_id", "y", ["PK", "FK"], none⟩, ⟨",", "z", [], none⟩]

theorem read_inline_iff_sample :
    read .epoch [inlineLine "line-item" inlineSample] = read .epoch (blockLines "line-item" (inlineSample.map Attribute.text)) ∧
      ((read .epoch (blockLines "line-item" (inlineSample.map Attribute.text))).elements.get? "line-item").map storedAttributes =
        some (inlineSample.map fun a => a.carried.toJson) := by
  obtain ⟨same, stored⟩ := @read_inline_iff inlineSample "line-item" .epoch (by decide) (by decide)
  exact ⟨same.2 (by decide), stored⟩

/-- A type that starts like a key is taken for a key of the attribute before it, and all are lost. -/
theorem read_inline_key : Attribute.RunsInto ⟨"string", "x", [], none⟩ ⟨"PKey", "y", [], none⟩ ∧
    ((read .epoch [inlineLine "A" [⟨"string", "x", [], none⟩, ⟨"PKey", "y", [], none⟩]]).elements.get? "A").map attributesOf =
      some [] ∧
    ((read .epoch (blockLines "A" ["string x", "PKey y"])).elements.get? "A").map attributesOf =
      some [⟨"string", "x", [], none⟩, ⟨"PKey", "y", [], none⟩] := by decide +kernel

end DiagramText.Entities
