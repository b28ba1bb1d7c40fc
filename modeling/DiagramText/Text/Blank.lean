/-! Blank characters, and the texts that are left when they are taken off the ends of a text or
when a text is cut into words. -/
namespace DiagramText.Text

/-- The characters of the Unicode property White_Space. -/
def isBlank (c : Char) : Bool :=
  let n := c.toNat
  (9 ≤ n && n ≤ 13) || n == 0x20 || n == 0x85 || n == 0xA0 || n == 0x1680 ||
    (0x2000 ≤ n && n ≤ 0x200A) || n == 0x2028 || n == 0x2029 || n == 0x202F || n == 0x205F ||
    n == 0x3000

/-- Blank inside one line of a statement: only space and tab. -/
def isInlineBlank (c : Char) : Bool := c == ' ' || c == '\t'

def trimLeft (cs : List Char) : List Char := cs.dropWhile isBlank
def trimRight (cs : List Char) : List Char := (cs.reverse.dropWhile isBlank).reverse
def trim (cs : List Char) : List Char := trimRight (trimLeft cs)

def trimmed (s : String) : String := String.ofList (trim s.toList)

/-- Nothing but blanks. -/
def isBlankText (s : String) : Bool := s.toList.all isBlank

/-- The non-empty runs of characters between those that `p` holds of. -/
def wordsBy (p : Char → Bool) : List Char → List (List Char)
  | [] => []
  | c :: cs =>
    if p c then wordsBy p cs
    else match cs with
      | [] => [[c]]
      | d :: _ =>
        if p d then [c] :: wordsBy p cs
        else match wordsBy p cs with
          | [] => [[c]]
          | w :: ws => (c :: w) :: ws

/-- The runs of characters that are not blank. -/
def words (cs : List Char) : List (List Char) := wordsBy isBlank cs

/-- What holds of every character of a fixed text can be checked on them one by one. -/
theorem forall_mem_of_all {p : Char → Prop} [DecidablePred p] {cs : List Char}
    (all : cs.all fun c => decide (p c)) : ∀ c ∈ cs, p c := by
  simpa using all

theorem isBlank_of_isInlineBlank {c : Char} (h : isInlineBlank c) : isBlank c := by
  simp only [isInlineBlank, Bool.or_eq_true, beq_iff_eq] at h
  rcases h with rfl | rfl <;> decide

@[simp] theorem trimLeft_nil : trimLeft [] = [] := rfl
@[simp] theorem trim_nil : trim [] = [] := rfl

theorem not_isBlank_of_head?_trimLeft {c : Char} {cs : List Char}
    (h : (trimLeft cs).head? = some c) : isBlank c = false := by
  induction cs with
  | nil => simp at h
  | cons d ds ih =>
    by_cases hd : isBlank d
    · exact ih (by simpa [trimLeft, hd] using h)
    · simp [trimLeft, hd] at h
      simpa [h] using hd

theorem trimLeft_eq_self {cs : List Char} (h : ∀ c ∈ cs.head?, isBlank c = false) :
    trimLeft cs = cs := by
  cases cs with
  | nil => rfl
  | cons c cs => simp [trimLeft, h c (by simp)]

theorem trimRight_eq_self {cs : List Char} (h : ∀ c ∈ cs.getLast?, isBlank c = false) :
    trimRight cs = cs := by
  have : trimLeft cs.reverse = cs.reverse := trimLeft_eq_self (by simpa using h)
  unfold trimLeft at this
  simp [trimRight, this]

theorem trimRight_prefix (cs : List Char) : trimRight cs <+: cs := by
  have h := (List.dropWhile_suffix isBlank : cs.reverse.dropWhile isBlank <:+ cs.reverse)
  simpa [trimRight] using List.reverse_prefix.2 h

/-- A trimmed text starts and ends with no blank. -/
theorem not_isBlank_of_head?_trim {c : Char} {cs : List Char} (h : (trim cs).head? = some c) :
    isBlank c = false := by
  obtain ⟨ds, hd⟩ := trimRight_prefix (trimLeft cs)
  have hs : (trimLeft cs).head? = some c := by
    rw [← hd, List.head?_append]
    simp [trim] at h
    simp [h]
  exact not_isBlank_of_head?_trimLeft hs

theorem not_isBlank_of_getLast?_trim {c : Char} {cs : List Char}
    (h : (trim cs).getLast? = some c) : isBlank c = false := by
  have hs : (trimLeft (trimLeft cs).reverse).head? = some c := by
    simpa [trim, trimRight, trimLeft] using h
  exact not_isBlank_of_head?_trimLeft hs

theorem trim_eq_self {cs : List Char} (hl : ∀ c ∈ cs.head?, isBlank c = false)
    (hr : ∀ c ∈ cs.getLast?, isBlank c = false) : trim cs = cs := by
  rw [trim, trimLeft_eq_self hl, trimRight_eq_self hr]

@[simp] theorem trim_trim (cs : List Char) : trim (trim cs) = trim cs :=
  trim_eq_self (fun _ h => not_isBlank_of_head?_trim h) fun _ h => not_isBlank_of_getLast?_trim h

/-! ### Blanks at the ends do not count -/

theorem trimLeft_eq_nil_iff {cs : List Char} : trimLeft cs = [] ↔ ∀ c ∈ cs, isBlank c := by
  induction cs with
  | nil => simp
  | cons c cs ih => by_cases h : isBlank c <;> simp_all [trimLeft]

theorem trimLeft_append_left {bs : List Char} (blank : ∀ c ∈ bs, isBlank c) (cs : List Char) :
    trimLeft (bs ++ cs) = trimLeft cs := List.dropWhile_append_of_pos blank

theorem trimRight_append_right {bs : List Char} (blank : ∀ c ∈ bs, isBlank c) (cs : List Char) :
    trimRight (cs ++ bs) = trimRight cs := by
  unfold trimRight
  rw [List.reverse_append, List.dropWhile_append_of_pos (by simpa using blank)]

theorem trim_append_left {bs : List Char} (blank : ∀ c ∈ bs, isBlank c) (cs : List Char) :
    trim (bs ++ cs) = trim cs := by rw [trim, trimLeft_append_left blank, trim]

theorem trim_space (cs : List Char) : trim (' ' :: cs) = trim cs := by
  have blank : ∀ c ∈ [' '], isBlank c := forall_mem_of_all rfl
  exact trim_append_left blank cs

theorem trim_append_right {bs : List Char} (blank : ∀ c ∈ bs, isBlank c) (cs : List Char) :
    trim (cs ++ bs) = trim cs := by
  unfold trim
  by_cases all : trimLeft cs = []
  · rw [all, trimLeft_eq_nil_iff.2]
    intro c hc
    rcases List.mem_append.1 hc with hc | hc
    · exact trimLeft_eq_nil_iff.1 all c hc
    · exact blank c hc
  · have kept : trimLeft (cs ++ bs) = trimLeft cs ++ bs := by
      unfold trimLeft at all ⊢
      rw [List.dropWhile_append, if_neg (by simpa using all)]
    rw [kept, trimRight_append_right blank]

theorem trim_eq_nil_iff {cs : List Char} : trim cs = [] ↔ ∀ c ∈ cs, isBlank c := by
  constructor
  · intro h
    have all : trimLeft (trimLeft cs).reverse = [] := by simpa [trim, trimRight, trimLeft] using h
    rw [trimLeft_eq_nil_iff] at all
    rw [← trimLeft_eq_nil_iff]
    cases left : trimLeft cs with
    | nil => rfl
    | cons c rest =>
      have first : (trimLeft cs).head? = some c := by rw [left]; rfl
      have head := not_isBlank_of_head?_trimLeft first
      have := all c (by simp [left])
      simp [this] at head
  · intro h
    rw [trim, trimLeft_eq_nil_iff.2 h]
    rfl

/-- A character that is no blank stops the trimming. -/
theorem trimLeft_append_cons {c : Char} (solid : isBlank c = false) (before after : List Char) :
    trimLeft (before ++ c :: after) = trimLeft before ++ c :: after := by
  unfold trimLeft
  rw [List.dropWhile_append]
  split <;> simp_all

theorem trimRight_append_cons {c : Char} (solid : isBlank c = false) (before after : List Char) :
    trimRight (before ++ c :: after) = before ++ c :: trimRight after := by
  unfold trimRight
  rw [List.reverse_append, List.reverse_cons, List.append_assoc, List.dropWhile_append]
  split <;> simp_all

/-- A text that starts with no blank keeps its start. -/
theorem trim_cons {c : Char} (first : isBlank c = false) (cs : List Char) :
    ∃ ds, trim (c :: cs) = c :: ds :=
  ⟨trimRight cs, by rw [trim, trimLeft_eq_self (by simpa using first)]; exact trimRight_append_cons first [] cs⟩

/-- A text is trimmed when it starts with no blank and ends in a trimmed text. -/
theorem trim_cons_append (c : Char) (before : List Char) {after : List Char} (first : isBlank c = false)
    (some : after ≠ []) (tight : trim after = after) :
    trim (c :: (before ++ after)) = c :: (before ++ after) := by
  apply trim_eq_self
  · simpa using first
  · intro d hd
    rw [← List.cons_append, List.getLast?_append] at hd
    cases last : after.getLast? with
    | none => exact absurd (List.getLast?_eq_none_iff.1 last) some
    | some e =>
      obtain rfl : e = d := by simpa [last] using hd
      exact not_isBlank_of_getLast?_trim (tight.symm ▸ last)

/-- Trimming takes a piece out of the middle. -/
theorem isInfix_trim (cs : List Char) : trim cs <:+: cs := by
  have front := trimRight_prefix (trimLeft cs)
  exact front.isInfix.trans (List.dropWhile_suffix isBlank).isInfix

/-- Blanks are taken off the end first as well as last. -/
theorem trim_trimRight (cs : List Char) : trim (trimRight cs) = trim cs := by
  have back : trimRight cs ++ (cs.reverse.takeWhile isBlank).reverse = cs := by
    rw [trimRight, ← List.reverse_append, List.takeWhile_append_dropWhile, List.reverse_reverse]
  have blank : ∀ c ∈ (cs.reverse.takeWhile isBlank).reverse, isBlank c := fun c h =>
    List.all_eq_true.1 List.all_takeWhile c (List.mem_reverse.1 h)
  exact (trim_append_right blank _).symm.trans (congrArg trim back)

/-- What trimming takes off. -/
theorem exists_trim (cs : List Char) : ∃ before after, cs = before ++ (trim cs ++ after) ∧
    (∀ c ∈ before, isBlank c) ∧ ∀ c ∈ after, isBlank c := by
  have front : cs.takeWhile isBlank ++ trimLeft cs = cs := List.takeWhile_append_dropWhile
  have back : trim cs ++ ((trimLeft cs).reverse.takeWhile isBlank).reverse = trimLeft cs := by
    rw [trim, trimRight, ← List.reverse_append, List.takeWhile_append_dropWhile, List.reverse_reverse]
  refine ⟨_, _, by rw [back, front], List.all_eq_true.1 List.all_takeWhile, fun c h => ?_⟩
  exact List.all_eq_true.1 List.all_takeWhile c (List.mem_reverse.1 h)

theorem mem_of_mem_trim {c : Char} {cs : List Char} (h : c ∈ trim cs) : c ∈ cs :=
  (isInfix_trim cs).subset h

theorem mem_trim {c : Char} {cs : List Char} (solid : isBlank c = false) (h : c ∈ cs) : c ∈ trim cs := by
  obtain ⟨before, after, split, front, back⟩ := exists_trim cs
  rw [split, List.mem_append, List.mem_append] at h
  rcases h with blank | inside | blank
  · exact absurd (front c blank) (by simp [solid])
  · exact inside
  · exact absurd (back c blank) (by simp [solid])

theorem isBlankText_iff {s : String} : isBlankText s ↔ trim s.toList = [] := by
  rw [trim_eq_nil_iff, isBlankText, List.all_eq_true]

@[simp] theorem toList_trimmed (s : String) : (trimmed s).toList = trim s.toList :=
  String.toList_ofList

@[simp] theorem trimmed_trimmed (s : String) : trimmed (trimmed s) = trimmed s := by
  rw [trimmed, toList_trimmed, trim_trim, ← trimmed]

theorem trim_of_trimmed {s : String} (tight : trimmed s = s) : trim s.toList = s.toList := by
  rw [← toList_trimmed, tight]

theorem isBlankText_of_trimmed {s : String} (tight : trimmed s = s) : isBlankText s ↔ s = "" := by
  rw [isBlankText_iff, trim_of_trimmed tight, String.toList_eq_nil_iff]

@[simp] theorem isBlankText_trimmed (s : String) : isBlankText (trimmed s) = isBlankText s := by
  rw [Bool.eq_iff_iff, isBlankText_iff, isBlankText_iff, toList_trimmed, trim_trim]

end DiagramText.Text
