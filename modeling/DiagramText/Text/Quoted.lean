import DiagramText.Text.Blank

/-! Text on one line and text between double quotes. A quote inside is written as an entity, which
reading turns back. -/
namespace DiagramText.Text

/-- The entity that stands for a double quote. -/
def quoteEntity : List Char := ['#', 'q', 'u', 'o', 't', ';']

/-- Every line break, of one character or two, becomes a space. -/
def singleLine : List Char → List Char
  | [] => []
  | '\r' :: '\n' :: cs => ' ' :: singleLine cs
  | c :: cs => (if c = '\n' ∨ c = '\r' then ' ' else c) :: singleLine cs

def encodeQuote (c : Char) : List Char := if c = '"' then quoteEntity else [c]

/-- On one line, with entities for double quotes. -/
def encodeQuotes (cs : List Char) : List Char := (singleLine cs).flatMap encodeQuote

def decodeEntities : List Char → List Char
  | [] => []
  | '#' :: 'q' :: 'u' :: 'o' :: 't' :: ';' :: cs => '"' :: decodeEntities cs
  | c :: cs => c :: decodeEntities cs

/-- A text as it is printed on its line. -/
def oneLine (s : String) : String := String.ofList (singleLine s.toList)

/-- A text between double quotes. -/
def quoted (s : String) : String := "\"" ++ String.ofList (encodeQuotes s.toList) ++ "\""

/-! ### One line -/

theorem singleLine_eq_self {cs : List Char} (cr : '\r' ∉ cs) (lf : '\n' ∉ cs) : singleLine cs = cs := by
  fun_induction singleLine cs with
  | case1 => rfl
  | case2 => simp at cr
  | case3 c cs _ ih =>
    rw [List.mem_cons, not_or] at cr lf
    rw [if_neg fun h => h.elim (Ne.symm lf.1) (Ne.symm cr.1), ih cr.2 lf.2]

theorem not_break_of_mem_singleLine {c : Char} {cs : List Char} (h : c ∈ singleLine cs) :
    c ≠ '\n' ∧ c ≠ '\r' := by
  fun_induction singleLine cs with
  | case1 => simp at h
  | case2 cs ih =>
    rcases List.mem_cons.1 h with rfl | h
    · decide
    · exact ih h
  | case3 d cs _ ih =>
    rcases List.mem_cons.1 h with rfl | h
    · split
      · decide
      · next other => simpa only [not_or] using other
    · exact ih h

theorem not_mem_singleLine (cs : List Char) : '\n' ∉ singleLine cs :=
  fun h => (not_break_of_mem_singleLine h).1 rfl

@[simp] theorem singleLine_singleLine (cs : List Char) : singleLine (singleLine cs) = singleLine cs :=
  singleLine_eq_self (fun h => (not_break_of_mem_singleLine h).2 rfl)
    fun h => (not_break_of_mem_singleLine h).1 rfl

@[simp] theorem toList_oneLine (s : String) : (oneLine s).toList = singleLine s.toList :=
  String.toList_ofList

@[simp] theorem oneLine_oneLine (s : String) : oneLine (oneLine s) = oneLine s := by
  rw [oneLine, toList_oneLine, singleLine_singleLine, ← oneLine]

theorem oneLine_eq_self {s : String} (cr : '\r' ∉ s.toList) (lf : '\n' ∉ s.toList) :
    oneLine s = s := by rw [oneLine, singleLine_eq_self cr lf, String.ofList_toList]

/-- Without a space there was no line break. -/
theorem singleLine_eq_self_of_not_mem {cs : List Char} (none : ' ' ∉ singleLine cs) : singleLine cs = cs := by
  fun_induction singleLine cs with
  | case1 => rfl
  | case2 cs ih => exact absurd (List.mem_cons_self ..) none
  | case3 c cs _ ih =>
    rw [List.mem_cons, not_or] at none
    by_cases broken : c = '\n' ∨ c = '\r'
    · exact absurd (if_pos broken).symm none.1
    · rw [if_neg broken, ih none.2]

theorem isBlank_of_mem_singleLine_iff {cs : List Char} :
    (∀ c ∈ singleLine cs, isBlank c) ↔ ∀ c ∈ cs, isBlank c := by
  fun_induction singleLine cs with
  | case1 => simp
  | case2 cs ih =>
    have cr : isBlank '\r' := by decide
    have lf : isBlank '\n' := by decide
    have space : isBlank ' ' := by decide
    simp [ih, cr, lf, space]
  | case3 c cs _ ih =>
    have first : isBlank (if c = '\n' ∨ c = '\r' then ' ' else c) = isBlank c := by
      split
      · next h => rcases h with rfl | rfl <;> rfl
      · rfl
    simp [ih, first]

@[simp] theorem isBlankText_oneLine (s : String) : isBlankText (oneLine s) = isBlankText s := by
  rw [Bool.eq_iff_iff, isBlankText_iff, isBlankText_iff, toList_oneLine, trim_eq_nil_iff,
    trim_eq_nil_iff, isBlank_of_mem_singleLine_iff]

/-! ### One line, trimmed -/

theorem singleLine_cons {c : Char} (notBlank : isBlank c = false) (cs : List Char) :
    singleLine (c :: cs) = c :: singleLine cs := by
  have cr : c ≠ '\r' := by
    rintro rfl
    cases notBlank
  have lf : c ≠ '\n' := by
    rintro rfl
    cases notBlank
  rw [singleLine, if_neg (not_or.2 ⟨lf, cr⟩)]
  intro ds same
  exact absurd same cr

theorem singleLine_concat {c : Char} (notBlank : isBlank c = false) (cs : List Char) :
    singleLine (cs ++ [c]) = singleLine cs ++ [c] := by
  fun_induction singleLine cs with
  | case1 => exact singleLine_cons notBlank []
  | case2 cs ih => rw [List.cons_append, List.cons_append, singleLine, ih, List.cons_append]
  | case3 d cs alone ih =>
    rw [List.cons_append, singleLine, ih, List.cons_append]
    rintro ds rfl same
    cases cs with
    | nil =>
      obtain ⟨rfl, -⟩ := List.cons.inj same
      cases notBlank
    | cons e cs =>
      obtain ⟨rfl, -⟩ := List.cons.inj same
      exact alone cs rfl rfl

/-- A line break at neither end makes no blank at either. -/
theorem trimmed_oneLine {s : String} (tight : trimmed s = s) : trimmed (oneLine s) = oneLine s := by
  have same := trim_of_trimmed tight
  have ends : trim (singleLine s.toList) = singleLine s.toList := by
    apply trim_eq_self
    · cases split : s.toList with
      | nil => simp [singleLine]
      | cons c cs =>
        have notBlank : isBlank c = false := not_isBlank_of_head?_trim (by rw [same, split]; rfl)
        simpa [singleLine_cons notBlank] using notBlank
    · rcases List.eq_nil_or_concat s.toList with none | ⟨cs, c, split⟩
      · simp [none, singleLine]
      · rw [List.concat_eq_append] at split
        have notBlank : isBlank c = false :=
          not_isBlank_of_getLast?_trim (by rw [same, split, List.getLast?_concat])
        simpa [split, singleLine_concat notBlank] using notBlank
  rw [trimmed, toList_oneLine, ends, ← oneLine]

theorem oneLine_eq_empty_iff {s : String} (tight : trimmed s = s) : oneLine s = "" ↔ isBlankText s := by
  rw [← isBlankText_oneLine, isBlankText_iff, ← toList_trimmed, trimmed_oneLine tight,
    String.toList_eq_nil_iff]

/-- Trimming brings no line break back. -/
theorem oneLine_trimmed_oneLine (s : String) :
    oneLine (trimmed (oneLine s)) = trimmed (oneLine s) := by
  apply oneLine_eq_self <;> rw [toList_trimmed, toList_oneLine] <;> intro h
  · exact (not_break_of_mem_singleLine (mem_of_mem_trim h)).2 rfl
  · exact (not_break_of_mem_singleLine (mem_of_mem_trim h)).1 rfl

/-! ### Entities -/

theorem toList_quoted (s : String) : (quoted s).toList = '"' :: (encodeQuotes s.toList ++ ['"']) := by
  simp [quoted]

theorem not_mem_flatMap_encodeQuote (cs : List Char) : '"' ∉ cs.flatMap encodeQuote := by
  simp only [List.mem_flatMap, not_exists, not_and]
  intro c _
  unfold encodeQuote
  split
  · decide
  · next h => simpa using Ne.symm h

theorem not_mem_encodeQuotes (cs : List Char) : '"' ∉ encodeQuotes cs := not_mem_flatMap_encodeQuote _

theorem decodeEntities_cons {c : Char} {cs : List Char} (other : ¬ quoteEntity <+: c :: cs) :
    decodeEntities (c :: cs) = c :: decodeEntities cs := by
  rw [decodeEntities]
  rintro rest rfl rfl
  exact other ⟨rest, rfl⟩

/-- Encoding makes no text without a `#` that was not there before. -/
theorem prefix_of_prefix_encoded {p cs : List Char} (free : '#' ∉ p)
    (h : p <+: cs.flatMap encodeQuote) : p <+: cs := by
  induction p generalizing cs with
  | nil => exact List.nil_prefix
  | cons x p ih =>
    rw [List.mem_cons, not_or] at free
    cases cs with
    | nil => simp at h
    | cons c cs =>
      rw [List.flatMap_cons, encodeQuote] at h
      split at h
      · have := (List.cons_prefix_cons.1 h).1
        exact absurd this.symm free.1
      · obtain ⟨rfl, tail⟩ := List.cons_prefix_cons.1 h
        exact List.cons_prefix_cons.2 ⟨rfl, ih free.2 tail⟩

/-- A text without an entity of its own survives being written in quotes. -/
theorem decodeEntities_flatMap_encodeQuote {cs : List Char} (none : ¬ quoteEntity <:+: cs) :
    decodeEntities (cs.flatMap encodeQuote) = cs := by
  induction cs with
  | nil => rfl
  | cons c cs ih =>
    have rest := ih fun h => none (h.trans (List.suffix_cons c cs).isInfix)
    by_cases hc : c = '"'
    · subst hc
      exact congrArg _ rest
    · rw [List.flatMap_cons, encodeQuote, if_neg hc, List.singleton_append, decodeEntities_cons, rest]
      intro h
      obtain ⟨rfl, tail⟩ := List.cons_prefix_cons.1 h
      have there : ['q', 'u', 'o', 't', ';'] <+: cs := prefix_of_prefix_encoded (by decide) tail
      exact none (List.cons_prefix_cons.2 ⟨rfl, there⟩).isInfix

end DiagramText.Text
