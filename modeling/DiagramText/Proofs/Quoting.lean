import DiagramText.Proofs.Reader
import DiagramText.Text.Search
import DiagramText.Text.Split
import Mathlib.Algebra.Group.Nat.Even

/-! Text written in quotes and read back. It comes back on one line, with whatever stood in it for a
quote turned into one; written again it is the same text. -/
namespace DiagramText.Text

/-! ### One line -/

/-- Line breaks that become spaces make nothing that has no space in it. -/
theorem prefix_of_prefix_singleLine {p cs : List Char} (free : ' ' ∉ p) (h : p <+: singleLine cs) :
    p <+: cs := by
  fun_induction singleLine cs generalizing p with
  | case1 => exact h
  | case2 cs ih =>
    cases p with
    | nil => exact List.nil_prefix
    | cons x p =>
      obtain ⟨rfl, -⟩ := List.cons_prefix_cons.1 h
      exact absurd (List.mem_cons_self ..) free
  | case3 c cs _ ih =>
    cases p with
    | nil => exact List.nil_prefix
    | cons x p =>
      rw [List.mem_cons, not_or] at free
      obtain ⟨same, tail⟩ := List.cons_prefix_cons.1 h
      by_cases broken : c = '\n' ∨ c = '\r'
      · rw [if_pos broken] at same
        exact absurd same.symm free.1
      · rw [if_neg broken] at same
        exact List.cons_prefix_cons.2 ⟨same, ih free.2 tail⟩

theorem infix_of_infix_singleLine {p cs : List Char} (free : ' ' ∉ p) (h : p <:+: singleLine cs) :
    p <:+: cs := by
  fun_induction singleLine cs with
  | case1 => exact h
  | case2 cs ih =>
    rcases List.infix_cons_iff.1 h with start | later
    · cases p with
      | nil => exact List.nil_infix
      | cons x p =>
        obtain ⟨rfl, -⟩ := List.cons_prefix_cons.1 start
        exact absurd (List.mem_cons_self ..) free
    · exact (ih later).trans ((List.suffix_cons ..).trans (List.suffix_cons ..)).isInfix
  | case3 c cs alone ih =>
    rcases List.infix_cons_iff.1 h with start | later
    · have whole : p <+: singleLine (c :: cs) := by rwa [singleLine]; exact alone
      exact (prefix_of_prefix_singleLine free whole).isInfix
    · exact (ih later).trans (List.suffix_cons ..).isInfix

/-- A start without line breaks is kept. -/
theorem prefix_singleLine {p cs : List Char} (whole : ∀ c ∈ p, c ≠ '\n' ∧ c ≠ '\r') (h : p <+: cs) :
    p <+: singleLine cs := by
  induction p generalizing cs with
  | nil => exact List.nil_prefix
  | cons c p ih =>
    rw [List.forall_mem_cons] at whole
    obtain ⟨rest, rfl⟩ := h
    have kept : singleLine (c :: (p ++ rest)) = c :: singleLine (p ++ rest) := by
      rw [singleLine, if_neg (not_or.2 whole.1)]
      exact fun ds same => absurd same whole.1.2
    rw [List.cons_append, kept]
    exact List.cons_prefix_cons.2 ⟨rfl, ih whole.2 (List.prefix_append p rest)⟩

/-- What has neither line breaks nor spaces in it stands on the one line where it stood on several. -/
theorem infix_singleLine_iff {p cs : List Char} (whole : ∀ c ∈ p, c ≠ '\n' ∧ c ≠ '\r') (free : ' ' ∉ p) :
    p <:+: singleLine cs ↔ p <:+: cs := by
  refine ⟨infix_of_infix_singleLine free, fun h => ?_⟩
  fun_induction singleLine cs with
  | case1 => exact h
  | case2 cs ih =>
    -- Neither character of the line break can start it.
    have later : p <:+: cs := by
      cases p with
      | nil => exact List.nil_infix
      | cons c p =>
        have other := whole c List.mem_cons_self
        simpa [List.infix_cons_iff, List.cons_prefix_cons, other.1, other.2] using h
    exact (ih later).trans (List.suffix_cons ..).isInfix
  | case3 c cs alone ih =>
    rcases List.infix_cons_iff.1 h with start | later
    · have kept := (prefix_singleLine whole start).isInfix
      rwa [singleLine] at kept
      exact alone
    · exact (ih later).trans (List.suffix_cons ..).isInfix

theorem mem_of_mem_singleLine {c : Char} {cs : List Char} (other : c ≠ ' ') (h : c ∈ singleLine cs) :
    c ∈ cs := by
  obtain ⟨before, after, split⟩ := List.append_of_mem h
  have within : [c] <:+: singleLine cs := ⟨before, after, by rw [split]; simp⟩
  obtain ⟨before, after, split⟩ := infix_of_infix_singleLine (by simpa using Ne.symm other) within
  simp [← split]

theorem mem_singleLine {c : Char} {cs : List Char} (whole : c ≠ '\n' ∧ c ≠ '\r') (h : c ∈ cs) :
    c ∈ singleLine cs := by
  fun_induction singleLine cs with
  | case1 => exact h
  | case2 cs ih =>
    have later : c ∈ cs := by simpa [whole] using h
    exact List.mem_cons_of_mem _ (ih later)
  | case3 d cs _ ih =>
    rcases List.mem_cons.1 h with rfl | later
    · simp [whole]
    · exact List.mem_cons_of_mem _ (ih later)

theorem oneLine_ne_empty {s : String} (some : s ≠ "") : oneLine s ≠ "" := by
  intro none
  have empty : singleLine s.toList = [] := by rw [← toList_oneLine, none]; rfl
  apply some
  rw [← String.toList_eq_nil_iff]
  revert empty
  fun_cases singleLine s.toList <;> simp

/-- Where a line can be cut, the text it was made of can be. -/
theorem exists_append_of_singleLine {cs xs ys : List Char} (split : singleLine cs = xs ++ ys) :
    ∃ as bs, cs = as ++ bs ∧ singleLine as = xs ∧ singleLine bs = ys := by
  fun_induction singleLine cs generalizing xs with
  | case1 =>
    obtain ⟨rfl, rfl⟩ := List.nil_eq_append_iff.1 split
    exact ⟨[], [], rfl, rfl, rfl⟩
  | case2 cs ih =>
    rcases List.cons_eq_append_iff.1 split with ⟨rfl, rfl⟩ | ⟨zs, rfl, tail⟩
    · exact ⟨[], _, rfl, rfl, by rw [singleLine]⟩
    · obtain ⟨as, bs, rfl, rfl, rfl⟩ := ih tail
      exact ⟨'\r' :: '\n' :: as, bs, rfl, by rw [singleLine], rfl⟩
  | case3 c cs alone ih =>
    rcases List.cons_eq_append_iff.1 split with ⟨rfl, rfl⟩ | ⟨zs, rfl, tail⟩
    · exact ⟨[], _, rfl, rfl, by rw [singleLine]; exact alone⟩
    · obtain ⟨as, bs, rfl, rfl, rfl⟩ := ih tail
      refine ⟨c :: as, bs, rfl, ?_, rfl⟩
      rw [singleLine]
      exact fun ds same broken => alone (ds ++ bs) same (by rw [broken]; rfl)

/-! ### In quotes or not -/

/-- An even number of quotes leaves a text where it started. -/
theorem quotedAfter_eq (quoted : Bool) (cs : List Char) :
    quotedAfter quoted cs = if Even (cs.count '"') then quoted else !quoted := by
  induction cs generalizing quoted with
  | nil => simp [quotedAfter]
  | cons c cs ih =>
    have next : quotedAfter quoted (c :: cs) = quotedAfter (if c = '"' then !quoted else quoted) cs := rfl
    rw [next, ih, List.count_cons]
    by_cases quote : c = '"'
    · by_cases even : Even (cs.count '"') <;> simp [quote, even, Nat.even_add_one]
    · simp [quote]

/-! ### Quoted and read back -/

/-- What is read of a text that stands in quotes as it is. -/
def decoded (s : String) : String := String.ofList (decodeEntities s.toList)

/-- What is read of a text that is written in quotes. -/
def requoted (s : String) : String := String.ofList (decodeEntities (encodeQuotes s.toList))

theorem reads_quoted (s : String) (rest : List Char) :
    Reader.Reads Reader.quoted ((quoted s).toList ++ rest) (requoted s) rest := by
  rw [toList_quoted, List.cons_append, List.append_assoc, List.singleton_append]
  exact Reader.reads_quoted (not_mem_encodeQuotes s.toList) rest

theorem flatMap_encodeQuote_eq_self {cs : List Char} (free : '"' ∉ cs) :
    cs.flatMap encodeQuote = cs := by
  induction cs with
  | nil => rfl
  | cons c cs ih =>
    rw [List.mem_cons, not_or] at free
    rw [List.flatMap_cons, encodeQuote, if_neg (Ne.symm free.1), ih free.2, List.singleton_append]

theorem flatMap_encodeQuote_decodeEntities {cs : List Char} (free : '"' ∉ cs) :
    (decodeEntities cs).flatMap encodeQuote = cs := by
  fun_induction decodeEntities cs with
  | case1 => rfl
  | case2 cs ih =>
    simp only [List.mem_cons, not_or] at free
    rw [List.flatMap_cons, ih free.2.2.2.2.2.2]
    rfl
  | case3 c cs _ ih =>
    rw [List.mem_cons, not_or] at free
    rw [List.flatMap_cons, encodeQuote, if_neg (Ne.symm free.1), ih free.2, List.singleton_append]

/-- Reading entities makes no character but quotes. -/
theorem mem_of_mem_decodeEntities {c : Char} {cs : List Char} (other : c ≠ '"')
    (h : c ∈ decodeEntities cs) : c ∈ cs := by
  fun_induction decodeEntities cs with
  | case1 => exact h
  | case2 cs ih =>
    have later := ih ((List.mem_cons.1 h).resolve_left other)
    exact List.mem_append_right quoteEntity later
  | case3 d cs _ ih => exact List.mem_cons.2 ((List.mem_cons.1 h).imp_right ih)

/-- Reading entities loses no character but those of the entities. -/
theorem mem_decodeEntities {c : Char} {cs : List Char} (other : c ∉ quoteEntity) (h : c ∈ cs) :
    c ∈ decodeEntities cs := by
  fun_induction decodeEntities cs with
  | case1 => exact h
  | case2 cs ih =>
    have later : c ∈ cs := (List.mem_append.1 (show c ∈ quoteEntity ++ cs from h)).resolve_left other
    exact List.mem_cons_of_mem _ (ih later)
  | case3 d cs _ ih => exact List.mem_cons.2 ((List.mem_cons.1 h).imp_right ih)

theorem prefix_of_prefix_decodeEntities {p cs : List Char} (free : '"' ∉ p)
    (h : p <+: decodeEntities cs) : p <+: cs := by
  fun_induction decodeEntities cs generalizing p with
  | case1 => exact h
  | case2 cs ih =>
    cases p with
    | nil => exact List.nil_prefix
    | cons x p =>
      obtain ⟨rfl, -⟩ := List.cons_prefix_cons.1 h
      exact absurd (List.mem_cons_self ..) free
  | case3 c cs _ ih =>
    cases p with
    | nil => exact List.nil_prefix
    | cons x p =>
      rw [List.mem_cons, not_or] at free
      obtain ⟨rfl, tail⟩ := List.cons_prefix_cons.1 h
      exact List.cons_prefix_cons.2 ⟨rfl, ih free.2 tail⟩

/-- Reading entities leaves none. -/
theorem not_quoteEntity_infix_decodeEntities (cs : List Char) :
    ¬ quoteEntity <:+: decodeEntities cs := by
  fun_induction decodeEntities cs with
  | case1 => decide
  | case2 cs ih =>
    intro h
    rcases List.infix_cons_iff.1 h with start | later
    · exact absurd (List.cons_prefix_cons.1 start).1 (by decide)
    · exact ih later
  | case3 c cs other ih =>
    intro h
    rcases List.infix_cons_iff.1 h with start | later
    · obtain ⟨rfl, tail⟩ := List.cons_prefix_cons.1 start
      obtain ⟨rest, rfl⟩ := prefix_of_prefix_decodeEntities (by decide) tail
      exact other rest rfl rfl
    · exact ih later

theorem mem_singleLine_of_mem_encodeQuotes {c : Char} {cs : List Char} (other : c ∉ quoteEntity)
    (h : c ∈ encodeQuotes cs) : c ∈ singleLine cs := by
  obtain ⟨d, there, within⟩ := List.mem_flatMap.1 h
  unfold encodeQuote at within
  split at within
  · exact absurd within other
  · exact List.mem_singleton.1 within ▸ there

theorem not_break_of_mem_encodeQuotes {c : Char} {cs : List Char} (h : c ∈ encodeQuotes cs) :
    c ≠ '\n' ∧ c ≠ '\r' := by
  constructor <;> rintro rfl
  · exact (not_break_of_mem_singleLine (mem_singleLine_of_mem_encodeQuotes (by decide) h)).1 rfl
  · exact (not_break_of_mem_singleLine (mem_singleLine_of_mem_encodeQuotes (by decide) h)).2 rfl

theorem not_mem_quoted (s : String) : '\n' ∉ (quoted s).toList := by
  have inside : '\n' ∉ encodeQuotes s.toList := fun h => (not_break_of_mem_encodeQuotes h).1 rfl
  simp [toList_quoted, inside]

theorem not_break_of_mem_requoted {c : Char} {s : String} (h : c ∈ (requoted s).toList) :
    c ≠ '\n' ∧ c ≠ '\r' := by
  rw [requoted, String.toList_ofList] at h
  constructor <;> rintro rfl
  · exact (not_break_of_mem_encodeQuotes (mem_of_mem_decodeEntities (by decide) h)).1 rfl
  · exact (not_break_of_mem_encodeQuotes (mem_of_mem_decodeEntities (by decide) h)).2 rfl

/-- A text that was read is on one line. -/
theorem oneLine_requoted (s : String) : oneLine (requoted s) = requoted s :=
  oneLine_eq_self (fun h => (not_break_of_mem_requoted h).2 rfl)
    fun h => (not_break_of_mem_requoted h).1 rfl

theorem encodeQuotes_requoted (s : String) : encodeQuotes (requoted s).toList = encodeQuotes s.toList := by
  have line : singleLine (requoted s).toList = (requoted s).toList := by
    rw [← toList_oneLine, oneLine_requoted]
  rw [encodeQuotes, line, requoted, String.toList_ofList,
    flatMap_encodeQuote_decodeEntities (not_mem_encodeQuotes s.toList)]

/-- A text that was read is written as before. -/
@[simp] theorem quoted_requoted (s : String) : quoted (requoted s) = quoted s := by
  rw [quoted, encodeQuotes_requoted, ← quoted]

/-- Quotes put a text on one line themselves. -/
@[simp] theorem quoted_oneLine (s : String) : quoted (oneLine s) = quoted s := by
  rw [quoted, encodeQuotes, toList_oneLine, singleLine_singleLine, ← encodeQuotes, ← quoted]

@[simp] theorem requoted_oneLine (s : String) : requoted (oneLine s) = requoted s := by
  rw [requoted, encodeQuotes, toList_oneLine, singleLine_singleLine, ← encodeQuotes, ← requoted]

theorem requoted_eq_empty_iff {s : String} : requoted s = "" ↔ s = "" := by
  constructor
  · intro empty
    have none : encodeQuotes s.toList = [] := by rw [← encodeQuotes_requoted, empty]; rfl
    cases split : s.toList with
    | nil => exact String.toList_eq_nil_iff.1 split
    | cons c cs =>
      have first : ∃ d ds, singleLine (c :: cs) = d :: ds := by
        rw [singleLine.eq_def]
        split <;> simp_all
      obtain ⟨d, ds, line⟩ := first
      rw [split, encodeQuotes, line, List.flatMap_cons, encodeQuote] at none
      split at none <;> simp [quoteEntity] at none
  · rintro rfl
    rfl

/-- A quote is written as an entity that neither starts nor ends in a blank. -/
theorem ends_flatMap_encodeQuote {b : Char} (blank : isBlank b) (cs : List Char) :
    ((cs.flatMap encodeQuote).head? = some b ↔ cs.head? = some b) ∧
      ((cs.flatMap encodeQuote).getLast? = some b ↔ cs.getLast? = some b) := by
  have apart : b ≠ '#' ∧ b ≠ ';' ∧ b ≠ '"' := by
    refine ⟨?_, ?_, ?_⟩ <;> rintro rfl <;> exact absurd blank (by decide)
  have one (c : Char) : ∃ first last : Char, (encodeQuote c).head? = some first ∧
      (encodeQuote c).getLast? = some last ∧ (first = b ↔ c = b) ∧ (last = b ↔ c = b) := by
    unfold encodeQuote
    split
    · next quote =>
      exact ⟨'#', ';', rfl, rfl, by simp [quote, Ne.symm apart.1, Ne.symm apart.2.2],
        by simp [quote, Ne.symm apart.2.1, Ne.symm apart.2.2]⟩
    · exact ⟨c, c, rfl, rfl, Iff.rfl, Iff.rfl⟩
  constructor
  · cases cs with
    | nil => rfl
    | cons c cs =>
      obtain ⟨first, -, starts, -, same, -⟩ := one c
      simp [List.head?_append, starts, same]
  · rcases List.eq_nil_or_concat cs with rfl | ⟨ds, c, rfl⟩
    · rfl
    · obtain ⟨-, last, -, ends, -, same⟩ := one c
      simp [List.getLast?_append, ends, same]

/-- What comes back of a trimmed text is trimmed. -/
theorem trimmed_requoted {s : String} (tight : trimmed s = s) : trimmed (requoted s) = requoted s := by
  have line : trim (singleLine s.toList) = singleLine s.toList := by
    rw [← toList_oneLine]
    exact trim_of_trimmed (trimmed_oneLine tight)
  have same : (requoted s).toList.flatMap encodeQuote = (singleLine s.toList).flatMap encodeQuote := by
    have encoded := encodeQuotes_requoted s
    rwa [encodeQuotes, ← toList_oneLine, oneLine_requoted] at encoded
  have ends : trim (requoted s).toList = (requoted s).toList := by
    apply trim_eq_self <;> intro b last <;> rw [← Bool.not_eq_true] <;> intro blank
    · have first := (ends_flatMap_encodeQuote blank _).1.2 last
      rw [same, (ends_flatMap_encodeQuote blank _).1, ← line] at first
      rw [not_isBlank_of_head?_trim first] at blank
      cases blank
    · have final := (ends_flatMap_encodeQuote blank _).2.2 last
      rw [same, (ends_flatMap_encodeQuote blank _).2, ← line] at final
      rw [not_isBlank_of_getLast?_trim final] at blank
      cases blank
  rw [trimmed, ends, String.ofList_toList]

/-- A text without an entity of its own comes back, on one line. -/
theorem requoted_eq_oneLine {s : String} (none : ¬ quoteEntity <:+: s.toList) :
    requoted s = oneLine s := by
  have still : ¬ quoteEntity <:+: singleLine s.toList := fun h =>
    none (infix_of_infix_singleLine (by decide) h)
  rw [requoted, encodeQuotes, decodeEntities_flatMap_encodeQuote still, oneLine]

/-- A text that quotes can carry: on one line and without an entity of its own. -/
structure IsQuotable (s : String) : Prop where
  cr : '\r' ∉ s.toList
  lf : '\n' ∉ s.toList
  noEntity : ¬ quoteEntity <:+: s.toList

theorem isQuotable_iff {s : String} : IsQuotable s ↔
    (s.toList.all fun c => c != '\r' && c != '\n') ∧ occursIn quoteEntity s.toList = false := by
  simp only [List.all_eq_true, Bool.and_eq_true, bne_iff_ne, ← Bool.not_eq_true, occursIn_iff]
  constructor
  · intro quotable
    refine ⟨fun c h => ⟨?_, ?_⟩, quotable.noEntity⟩ <;> rintro rfl
    · exact quotable.cr h
    · exact quotable.lf h
  · rintro ⟨free, noEntity⟩
    exact ⟨fun h => (free _ h).1 rfl, fun h => (free _ h).2 rfl, noEntity⟩

instance (s : String) : Decidable (IsQuotable s) := decidable_of_iff' _ isQuotable_iff

theorem IsQuotable.requoted {s : String} (quotable : IsQuotable s) : Text.requoted s = s :=
  (requoted_eq_oneLine quotable.noEntity).trans (oneLine_eq_self quotable.cr quotable.lf)

/-- Quotes bring back what they can carry, and nothing else. -/
theorem requoted_eq_self_iff {s : String} : Text.requoted s = s ↔ IsQuotable s := by
  refine ⟨fun same => ⟨fun h => ?_, fun h => ?_, fun entity => ?_⟩, IsQuotable.requoted⟩
  · exact (not_break_of_mem_requoted (same.symm ▸ h)).2 rfl
  · exact (not_break_of_mem_requoted (same.symm ▸ h)).1 rfl
  · rw [← same, Text.requoted, String.toList_ofList] at entity
    exact not_quoteEntity_infix_decodeEntities _ entity

/-- On one line, what has no entity of its own can be quoted. -/
theorem isQuotable_oneLine {s : String} (none : ¬ quoteEntity <:+: s.toList) : IsQuotable (oneLine s) where
  cr h := (not_break_of_mem_singleLine (toList_oneLine s ▸ h)).2 rfl
  lf h := (not_break_of_mem_singleLine (toList_oneLine s ▸ h)).1 rfl
  noEntity h := none (infix_of_infix_singleLine (by decide) (toList_oneLine s ▸ h))

theorem isQuotable_oneLine_iff {s : String} : IsQuotable (oneLine s) ↔ ¬ quoteEntity <:+: s.toList := by
  refine ⟨fun quotable entity => quotable.noEntity ?_, isQuotable_oneLine⟩
  have whole : ∀ c ∈ quoteEntity, c ≠ '\n' ∧ c ≠ '\r' := forall_mem_of_all rfl
  rw [toList_oneLine]
  exact (infix_singleLine_iff whole (by decide)).2 entity

/-- A text in quotes is read to its end, whatever it holds. What is read is that text on one line if and
only if the text has no entity of its own. -/
theorem whole?_quoted_eq_oneLine_iff (s : String) :
    ∃ out, Reader.quoted.whole? ('"' :: (encodeQuotes s.toList ++ ['"'])) = some out ∧
      (out = oneLine s ↔ ¬ quoteEntity <:+: s.toList) := by
  have read := reads_quoted s []
  rw [List.append_nil, toList_quoted] at read
  refine ⟨requoted s, Reader.whole?_of_reads read, ?_⟩
  calc requoted s = oneLine s
      ↔ requoted (oneLine s) = oneLine s := by rw [requoted_oneLine]
    _ ↔ IsQuotable (oneLine s) := requoted_eq_self_iff
    _ ↔ ¬ quoteEntity <:+: s.toList := isQuotable_oneLine_iff

/-- An entity that is written for a quote may stand between parts of entities. -/
example : requoted "#quot\"quot;" = "#quot\"quot;" := by decide +kernel

theorem IsWord.noEntity {s : String} (word : IsWord s) : ¬ quoteEntity <:+: s.toList := by
  intro entity
  have marked : '#' ∈ s.toList := entity.subset (by decide)
  exact absurd (word.chars _ marked) (by decide)

theorem IsWord.quotable {s : String} (word : IsWord s) : IsQuotable s :=
  word.oneLine ▸ isQuotable_oneLine word.noEntity

/-- Without a quote or a semicolon in what is read, nothing was encoded. -/
theorem requoted_eq_oneLine_of_free {s : String} (quote : '"' ∉ (requoted s).toList)
    (semicolon : ';' ∉ (requoted s).toList) : requoted s = oneLine s := by
  have encoded : encodeQuotes s.toList = (requoted s).toList := by
    rw [← encodeQuotes_requoted, encodeQuotes, ← toList_oneLine, oneLine_requoted,
      flatMap_encodeQuote_eq_self quote]
  have plain : encodeQuotes s.toList = singleLine s.toList := by
    apply flatMap_encodeQuote_eq_self
    intro h
    have marked : ';' ∈ encodeQuotes s.toList := List.mem_flatMap.2 ⟨'"', h, by decide⟩
    exact semicolon (encoded ▸ marked)
  rw [oneLine, ← plain, encoded, String.ofList_toList]

/-- A word that a text comes to on one line is that text. -/
theorem eq_of_oneLine_word {s : String} (word : IsWord (oneLine s)) : oneLine s = s := by
  have noSpace : ' ' ∉ singleLine s.toList := by
    rw [← toList_oneLine]
    exact fun h => absurd (word.chars _ h) (by decide)
  rw [oneLine, singleLine_eq_self_of_not_mem noSpace, String.ofList_toList]

/-- What is read as a word was written as that word. -/
theorem eq_of_requoted_word {s : String} (word : IsWord (requoted s)) : requoted s = s := by
  have line : requoted s = oneLine s :=
    requoted_eq_oneLine_of_free (fun h => absurd (word.chars _ h) (by decide))
      fun h => absurd (word.chars _ h) (by decide)
  exact line.trans (eq_of_oneLine_word (line ▸ word))

end DiagramText.Text
