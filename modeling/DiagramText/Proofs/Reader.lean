import DiagramText.Reader
import DiagramText.Proofs.Prefix

/-! What readers read. `Reads r cs a rest` says that `r` takes `a` off the front of `cs` and leaves
`rest`, `Refuses r cs` that it takes nothing; both are built up along the readers themselves. -/
namespace DiagramText.Reader

variable {α β : Type} {cs mid rest : List Char} {a : α} {b : β}

def Reads (r : Reader α) (cs : List Char) (a : α) (rest : List Char) : Prop := r cs = some (a, rest)

def Refuses (r : Reader α) (cs : List Char) : Prop := r cs = none

theorem whole?_of_reads {r : Reader α} (h : Reads r cs a []) : whole? r cs = some a := by
  unfold whole?
  rw [show StateT.run r cs = _ from h]

theorem whole?_of_refuses {r : Reader α} (h : Refuses r cs) : whole? r cs = none := by
  unfold whole?
  rw [show StateT.run r cs = none from h]

/-- What leaves something over has not taken the whole text. -/
theorem whole?_of_rest {r : Reader α} (h : Reads r cs a rest) (some : rest ≠ []) : whole? r cs = none := by
  unfold whole?
  rw [show StateT.run r cs = _ from h]
  cases rest with
  | nil => exact absurd rfl some
  | cons c rest => rfl

/-- A text is read in one way at most. -/
theorem Reads.inj {r : Reader α} (one : Reads r cs a rest) {b : α} {left : List Char} (two : Reads r cs b left) :
    a = b ∧ rest = left := Prod.mk.inj (Option.some.inj (one.symm.trans two))

/-! ### Sequence -/

theorem Reads.pure (a : α) (cs : List Char) : Reads (Pure.pure a) cs a cs := rfl

theorem Reads.bind_eq {r : Reader α} (first : Reads r cs a mid) (f : α → Reader β) : (r >>= f) cs = f a mid := by
  show (r cs).bind (fun p => f p.1 p.2) = _
  rw [first]
  rfl

theorem Reads.bind {r : Reader α} {f : α → Reader β} (first : Reads r cs a mid)
    (next : Reads (f a) mid b rest) : Reads (r >>= f) cs b rest := (first.bind_eq f).trans next

theorem Refuses.bind {r : Reader α} (first : Refuses r cs) (f : α → Reader β) :
    Refuses (r >>= f) cs := by
  show (r cs).bind (fun p => f p.1 p.2) = _
  rw [first]
  rfl

theorem Reads.refuses_bind {r : Reader α} {f : α → Reader β} (first : Reads r cs a mid)
    (next : Refuses (f a) mid) : Refuses (r >>= f) cs := (first.bind_eq f).trans next

/-- Only what the first reader makes of its text counts. -/
theorem bind_congr {r s : Reader α} {ds : List Char} (same : r cs = s ds) (f : α → Reader β) :
    (r >>= f) cs = (s >>= f) ds := by
  show (r cs).bind (fun p => f p.1 p.2) = (s ds).bind fun p => f p.1 p.2
  rw [same]

theorem Reads.map {r : Reader α} (first : Reads r cs a rest) (f : α → β) :
    Reads (f <$> r) cs (f a) rest := by
  rw [map_eq_pure_bind]
  exact first.bind (Reads.pure (f a) rest)

theorem Refuses.map {r : Reader α} (first : Refuses r cs) (f : α → β) : Refuses (f <$> r) cs := by
  rw [map_eq_pure_bind]
  exact first.bind _

theorem Reads.seqRight {r : Reader α} {s : Reader β} (first : Reads r cs a mid)
    (next : Reads s mid b rest) : Reads (r *> s) cs b rest := by
  rw [seqRight_eq_bind]
  exact first.bind next

theorem Reads.seqRight_eq {r : Reader α} (first : Reads r cs a mid) (s : Reader β) : (r *> s) cs = s mid := by
  rw [seqRight_eq_bind]
  exact first.bind_eq fun _ => s

theorem Refuses.seqRight {r : Reader α} (first : Refuses r cs) (s : Reader β) :
    Refuses (r *> s) cs := by
  rw [seqRight_eq_bind]
  exact first.bind _

theorem Reads.refuses_seqRight {r : Reader α} {s : Reader β} (first : Reads r cs a mid)
    (next : Refuses s mid) : Refuses (r *> s) cs := by
  rw [seqRight_eq_bind]
  exact first.refuses_bind next

theorem Reads.seqLeft {r : Reader α} {s : Reader β} (first : Reads r cs a mid)
    (next : Reads s mid b rest) : Reads (r <* s) cs a rest := by
  rw [seqLeft_eq_bind]
  exact first.bind (next.bind (Reads.pure a rest))

/-! ### Choice -/

theorem Reads.orElse {r s : Reader α} (first : Reads r cs a rest) : Reads (r <|> s) cs a rest := by
  show (r cs <|> s cs) = _
  rw [first]
  rfl

theorem Refuses.orElse_eq {r : Reader α} (first : Refuses r cs) (s : Reader α) : (r <|> s) cs = s cs := by
  show (r cs <|> s cs) = _
  rw [first]
  rfl

theorem Refuses.orElse {r s : Reader α} (first : Refuses r cs) (second : Reads s cs a rest) :
    Reads (r <|> s) cs a rest := (first.orElse_eq s).trans second

theorem Refuses.orElse_refuses {r s : Reader α} (first : Refuses r cs) (second : Refuses s cs) :
    Refuses (r <|> s) cs := (first.orElse_eq s).trans second

theorem Reads.optional {r : Reader α} (h : Reads r cs a rest) :
    Reads (optional r) cs (some a) rest := (h.map some).orElse

theorem Refuses.optional {r : Reader α} (h : Refuses r cs) : Reads (optional r) cs none cs :=
  (h.map some).orElse (Reads.pure none cs)

/-- The reader of one of some values, if those of the values before it refuse the text. -/
theorem reads_firstOf_map {γ : Type} [DecidableEq γ] {all : List γ} {reader : γ → Reader α} {value : γ}
    (there : value ∈ all) (earlier : ∀ v ∈ all.takeWhile (· ≠ value), Refuses (reader v) cs)
    (h : Reads (reader value) cs a rest) : Reads (firstOf (all.map reader)) cs a rest := by
  induction all with
  | nil => cases there
  | cons v all ih =>
    by_cases same : v = value
    · subst same
      exact h.orElse
    · rw [List.takeWhile_cons_of_pos (by simpa using same), List.forall_mem_cons] at earlier
      have later := (List.mem_cons.1 there).resolve_left (Ne.symm same)
      exact earlier.1.orElse (ih later earlier.2)

theorem refuses_firstOf {rs : List (Reader α)} (none : ∀ r ∈ rs, Refuses r cs) :
    Refuses (firstOf rs) cs := by
  induction rs with
  | nil => rfl
  | cons r rs ih =>
    exact (none r (by simp)).orElse_refuses (ih fun s hs => none s (List.mem_cons_of_mem _ hs))

/-! ### Tokens -/

theorem reads_chars (ts rest : List Char) : Reads (chars ts) (ts ++ rest) () rest := by
  simp [Reads, chars]

theorem refuses_chars {ts : List Char} (h : ¬ ts <+: cs) : Refuses (chars ts) cs := by
  simp [Refuses, chars, Text.isPrefixOf?_eq_none_iff.2 h]

theorem reads_token (s : String) (rest : List Char) : Reads (token s) (s.toList ++ rest) () rest :=
  reads_chars ..

theorem reads_token_char {s : String} {c : Char} (single : s.toList = [c]) (rest : List Char) :
    Reads (token s) (c :: rest) () rest := by
  have := reads_token s rest
  rwa [single] at this

theorem refuses_token {s : String} (h : ¬ s.toList <+: cs) : Refuses (token s) cs := refuses_chars h

/-- The token of one of some values, if those that are tried before it do not start the text. -/
theorem reads_oneOf_map [DecidableEq α] {all : List α} {token : α → String} (there : a ∈ all)
    (earlier : ∀ b ∈ all.takeWhile (· ≠ a), ¬ (token b).toList <+: (token a).toList ++ rest) :
    Reads (oneOf (all.map fun a => (token a, a))) ((token a).toList ++ rest) a rest := by
  induction all with
  | nil => cases there
  | cons b all ih =>
    by_cases same : b = a
    · subst same
      exact ((reads_token (token b) rest).seqRight (Reads.pure b rest)).orElse
    · rw [List.takeWhile_cons_of_pos (by simpa using same), List.forall_mem_cons] at earlier
      have later := (List.mem_cons.1 there).resolve_left (Ne.symm same)
      exact ((refuses_token earlier.1).seqRight _).orElse (ih later earlier.2)

/-- A token of a table in which no token starts what a later one is continued to. -/
theorem reads_oneOf_mem {table : List (String × α)} {p : String × α}
    (apart : table.Pairwise fun q p => ¬ q.1.toList <+: p.1.toList ++ rest) (there : p ∈ table) :
    Reads (oneOf table) (p.1.toList ++ rest) p.2 rest := by
  induction table with
  | nil => cases there
  | cons q table ih =>
    rw [List.pairwise_cons] at apart
    rcases List.mem_cons.1 there with rfl | later
    · exact ((reads_token p.1 rest).seqRight (Reads.pure p.2 rest)).orElse
    · exact ((refuses_token (apart.1 p later)).seqRight _).orElse (ih apart.2 later)

theorem refuses_oneOf {table : List (String × α)} (none : ∀ p ∈ table, ¬ p.1.toList <+: cs) :
    Refuses (oneOf table) cs := by
  induction table with
  | nil => rfl
  | cons p table ih =>
    exact ((refuses_token (none p (by simp))).seqRight _).orElse_refuses
      (ih fun q hq => none q (List.mem_cons_of_mem _ hq))

/-- What follows a token can refuse the text whichever token it is. -/
theorem refuses_oneOf_bind {table : List (String × α)} {f : α → Reader β}
    (after : ∀ p ∈ table, ∀ rest, cs = p.1.toList ++ rest → Refuses (f p.2) rest) :
    Refuses (oneOf table >>= f) cs := by
  induction table with
  | nil => exact Refuses.bind (r := oneOf []) rfl f
  | cons p table ih =>
    rw [List.forall_mem_cons] at after
    by_cases starts : p.1.toList <+: cs
    · obtain ⟨rest, rfl⟩ := starts
      have taken : Reads (oneOf (p :: table)) (p.1.toList ++ rest) p.2 rest :=
        ((reads_token p.1 rest).seqRight (Reads.pure p.2 rest)).orElse
      exact taken.refuses_bind (after.1 rest rfl)
    · have skipped : oneOf (p :: table) cs = oneOf table cs :=
        ((refuses_token starts).seqRight (Pure.pure p.2 : Reader α)).orElse_eq (oneOf table)
      exact (bind_congr skipped f).trans (ih after.2)

theorem reads_atEnd : Reads atEnd [] () [] := rfl

theorem refuses_atEnd (h : cs ≠ []) : Refuses atEnd cs := if_neg h

theorem reads_rest (cs : List Char) : Reads Reader.rest cs cs [] := rfl

/-! ### Runs -/

/-- A class of characters stops before a text that starts with no member of it. -/
def Stops (p : Char → Bool) (cs : List Char) : Prop := ∀ c ∈ cs.head?, p c = false

@[simp] theorem stops_nil (p : Char → Bool) : Stops p [] := by simp [Stops]

@[simp] theorem stops_cons (p : Char → Bool) (c : Char) (cs : List Char) :
    Stops p (c :: cs) ↔ p c = false := by simp [Stops]

theorem stops_append {p : Char → Bool} (first : cs.head?.any fun c => !p c) (rest : List Char) :
    Stops p (cs ++ rest) := by
  cases cs with
  | nil => cases first
  | cons c cs => simpa using first

theorem Stops.append_of_ne_nil {p : Char → Bool} (some : cs ≠ []) (stops : Stops p cs) (more : List Char) :
    Stops p (cs ++ more) := by
  intro c first
  rw [List.head?_append_of_ne_nil cs some] at first
  exact stops c first

theorem Stops.of_append {p : Char → Bool} {more : List Char} (stops : Stops p (cs ++ more)) : Stops p cs := by
  intro c first
  exact stops c (by rw [List.head?_append, first]; rfl)

theorem takeWhile_append {p : Char → Bool} (all : ∀ c ∈ cs, p c) (stops : Stops p rest) :
    (cs ++ rest).takeWhile p = cs := by
  rw [List.takeWhile_append_of_pos all]
  cases rest with
  | nil => simp
  | cons c rest => simp [(stops_cons p c rest).1 stops]

theorem dropWhile_append {p : Char → Bool} (all : ∀ c ∈ cs, p c) (stops : Stops p rest) :
    (cs ++ rest).dropWhile p = rest := by
  rw [List.dropWhile_append_of_pos all]
  cases rest with
  | nil => rfl
  | cons c rest => simp [(stops_cons p c rest).1 stops]

/-- What starts a text and is all of one class starts its run of that class. -/
theorem prefix_of_stops {p : Char → Bool} {start : List Char} (all : ∀ c ∈ start, p c)
    (stops : Stops p rest) (starts : start <+: cs ++ rest) : start <+: cs := by
  rcases List.prefix_or_prefix_of_prefix starts (List.prefix_append cs rest) with h | ⟨more, rfl⟩
  · exact h
  · cases more with
    | nil => simp
    | cons c more =>
      rw [List.prefix_append_right_inj] at starts
      obtain ⟨tail, rfl⟩ := starts
      have := all c (by simp)
      rw [(stops_cons p c _).1 stops] at this
      cases this

theorem reads_run {p : Char → Bool} (all : ∀ c ∈ cs, p c) (stops : Stops p rest) :
    Reads (run p) (cs ++ rest) cs rest := by
  simp [Reads, run, takeWhile_append all stops, dropWhile_append all stops]

theorem reads_run1 {p : Char → Bool} (some : cs ≠ []) (all : ∀ c ∈ cs, p c) (stops : Stops p rest) :
    Reads (run1 p) (cs ++ rest) cs rest := by
  simp [Reads, run1, takeWhile_append all stops, dropWhile_append all stops, some]

theorem refuses_run1 {p : Char → Bool} (stops : Stops p cs) : Refuses (run1 p) cs := by
  have none : cs.takeWhile p = [] := by
    cases cs with
    | nil => rfl
    | cons c cs => simp [(stops_cons p c cs).1 stops]
  simp [Refuses, run1, none]

theorem reads_many_nil (r : Reader α) : Reads (many r) [] [] [] := rfl

theorem reads_many_none {r : Reader α} (stop : Refuses r cs) : Reads (many r) cs [] cs := by
  show upTo r cs.length cs = some ([], cs)
  cases cs.length with
  | zero => rfl
  | succ n => exact (stop.bind _).orElse (Reads.pure [] cs)

theorem reads_many1 {r : Reader α} (h : Reads r cs a []) : Reads (many1 r) cs [a] [] :=
  h.bind (Reads.bind (reads_many_nil r) (Reads.pure [a] []))

/-- Items one after the other, if each is read before what may follow it and can follow others. -/
theorem reads_many {r : Reader α} {text : α → List Char} {follows : List Char → Prop} {items : List α}
    (each : ∀ a ∈ items, ∀ more, follows more →
      Reads r (text a ++ more) a more ∧ follows (text a ++ more))
    (some : ∀ a ∈ items, text a ≠ []) (last : follows rest) (stop : Refuses r rest) :
    Reads (many r) (items.flatMap text ++ rest) items rest := by
  have following {as : List α} (among : ∀ a ∈ as, a ∈ items) : follows (as.flatMap text ++ rest) := by
    induction as with
    | nil => exact last
    | cons a as ih =>
      rw [List.forall_mem_cons] at among
      rw [List.flatMap_cons, List.append_assoc]
      exact (each a among.1 _ (ih among.2)).2
  have within {as : List α} (among : ∀ a ∈ as, a ∈ items) (n : Nat) (enough : as.length ≤ n) :
      Reads (upTo r n) (as.flatMap text ++ rest) as rest := by
    induction as generalizing n with
    | nil =>
      cases n with
      | zero => exact Reads.pure [] rest
      | succ n => exact (stop.bind _).orElse (Reads.pure [] rest)
    | cons a as ih =>
      rw [List.forall_mem_cons] at among
      cases n with
      | zero => cases enough
      | succ n =>
        have first := (each a among.1 _ (following among.2)).1
        have others := ih among.2 n (Nat.le_of_succ_le_succ enough)
        rw [List.flatMap_cons, List.append_assoc]
        exact Reads.orElse (first.bind (others.bind (Reads.pure (a :: as) rest)))
  have long : items.length ≤ (items.flatMap text ++ rest).length := by
    clear each following within
    induction items with
    | nil => exact Nat.zero_le _
    | cons a items ih =>
      rw [List.forall_mem_cons] at some
      have one := List.length_pos_iff.2 some.1
      have others := ih some.2
      simp only [List.flatMap_cons, List.length_append, List.length_cons] at others ⊢
      omega
  exact within (fun _ => id) _ long

/-! ### The pieces that statements are made of -/

theorem reads_inlineBlanks {bs : List Char} (blank : ∀ c ∈ bs, Text.isInlineBlank c)
    (stops : Stops Text.isInlineBlank rest) : Reads inlineBlanks (bs ++ rest) () rest :=
  (reads_run blank stops).bind (Reads.pure () rest)

theorem reads_noBlanks (stops : Stops Text.isInlineBlank cs) : Reads inlineBlanks cs () cs := by
  have none : ∀ c ∈ ([] : List Char), Text.isInlineBlank c := by simp
  exact reads_inlineBlanks none stops

theorem reads_space (stops : Stops Text.isInlineBlank rest) :
    Reads inlineBlanks (' ' :: rest) () rest := by
  have blank : ∀ c ∈ [' '], Text.isInlineBlank c := Text.forall_mem_of_all rfl
  exact reads_inlineBlanks blank stops

theorem reads_space1 (stops : Stops Text.isInlineBlank rest) :
    Reads inlineBlanks1 (' ' :: rest) () rest := by
  have blank : ∀ c ∈ [' '], Text.isInlineBlank c := Text.forall_mem_of_all rfl
  exact (reads_run1 (List.cons_ne_nil _ _) blank stops).bind (Reads.pure () rest)

theorem exists_reads_space1 (cs : List Char) : ∃ rest, Reads inlineBlanks1 (' ' :: cs) () rest := by
  have run : Reads (run1 Text.isInlineBlank) (' ' :: cs) _ _ := if_neg (by simp [Text.isInlineBlank])
  exact ⟨_, run.bind (Reads.pure () _)⟩

theorem refuses_inlineBlanks1 (stops : Stops Text.isInlineBlank cs) : Refuses inlineBlanks1 cs :=
  (refuses_run1 stops).bind _

end DiagramText.Reader

namespace DiagramText.Text

/-- An identifier: letters, digits and underscores, one at least. -/
structure IsWord (s : String) : Prop where
  some : s.toList ≠ []
  chars : ∀ c ∈ s.toList, isWordChar c

instance (s : String) : Decidable (IsWord s) :=
  decidable_of_iff (s.toList ≠ [] ∧ s.toList.all isWordChar)
    ⟨fun h => ⟨h.1, List.all_eq_true.1 h.2⟩, fun h => ⟨h.some, List.all_eq_true.2 h.chars⟩⟩

theorem isInlineBlank_eq_false_of_isWordChar {c : Char} (h : isWordChar c) :
    isInlineBlank c = false := by
  rw [← Bool.not_eq_true]
  intro blank
  have := not_isBlank_of_isWordChar h
  rw [isBlank_of_isInlineBlank blank] at this
  cases this

theorem IsWord.ne_empty {s : String} (word : IsWord s) : s ≠ "" := by
  rintro rfl
  exact word.some rfl

theorem IsWord.trimmed {s : String} (word : IsWord s) : Text.trimmed s = s := by
  have tight : trim s.toList = s.toList := by
    apply trim_eq_self
    · intro c h
      exact not_isBlank_of_isWordChar (word.chars c (List.mem_of_mem_head? h))
    · intro c h
      exact not_isBlank_of_isWordChar (word.chars c (List.mem_of_getLast? h))
  rw [Text.trimmed, tight, String.ofList_toList]

theorem IsWord.oneLine {s : String} (word : IsWord s) : Text.oneLine s = s := by
  apply oneLine_eq_self <;> intro h
  · exact absurd (word.chars _ h) (by decide)
  · exact absurd (word.chars _ h) (by decide)

theorem IsWord.first {s : String} (word : IsWord s) (rest : List Char) :
    ∃ c cs, s.toList ++ rest = c :: cs ∧ isWordChar c := by
  cases split : s.toList with
  | nil => exact absurd split word.some
  | cons c cs => exact ⟨c, cs ++ rest, rfl, word.chars c (by simp [split])⟩

theorem IsWord.unbroken {s : String} (word : IsWord s) : '\n' ∉ s.toList :=
  fun h => absurd (word.chars _ h) (by decide)

theorem IsWord.noColon {s : String} (word : IsWord s) : ':' ∉ s.toList :=
  fun h => absurd (word.chars _ h) (by decide)

theorem isWordChar_of_isDigit {c : Char} (digit : c.isDigit) : isWordChar c := by
  have small : c.toNat < 128 := by
    simp only [Char.isDigit, Bool.and_eq_true, decide_eq_true_eq] at digit
    have below : c.val.toNat ≤ 57 := UInt32.le_iff_toNat_le.1 digit.2
    show c.val.toNat < 128
    omega
  rw [isWordChar, isAlphanumeric_ascii small, Char.isAlphanum, digit, Bool.or_true, Bool.true_or]

/-- A word with a number at the end. -/
theorem IsWord.append_toString {s : String} (word : IsWord s) (n : Nat) : IsWord (s ++ toString n) := by
  have split : (s ++ toString n).toList = s.toList ++ Nat.toDigits 10 n := by
    rw [String.toList_append, Nat.toString_eq_ofList_toDigits, String.toList_ofList]
  constructor
  · rw [split]
    exact List.append_ne_nil_of_left_ne_nil word.some _
  · rw [split, List.forall_mem_append]
    exact ⟨word.chars, fun c h =>
      isWordChar_of_isDigit (Nat.isDigit_of_mem_toDigits (by decide) (by decide) h)⟩

/-- What starts with a word and ends in a trimmed text is trimmed. -/
theorem IsWord.trim_append {s : String} (word : IsWord s) (between : List Char) {last : List Char}
    (some : last ≠ []) (tight : trim last = last) :
    trim (s.toList ++ (between ++ last)) = s.toList ++ (between ++ last) := by
  cases start : s.toList with
  | nil => exact absurd start word.some
  | cons c cs =>
    have notBlank := not_isBlank_of_isWordChar (word.chars c (by simp [start]))
    rw [← List.append_assoc]
    exact trim_cons_append c (cs ++ between) notBlank some tight

/-- Behind a word and a character that is no blank, only the end is trimmed. -/
theorem IsWord.trim_append_cons {s : String} (word : IsWord s) (between : List Char) {c : Char}
    (solid : isBlank c = false) (cs : List Char) :
    trim (s.toList ++ (between ++ c :: cs)) = s.toList ++ (between ++ c :: trimRight cs) := by
  obtain ⟨d, ds, split, first⟩ := word.first (between ++ c :: cs)
  have kept : trimLeft (s.toList ++ (between ++ c :: cs)) = s.toList ++ (between ++ c :: cs) :=
    trimLeft_eq_self (by simpa [split] using not_isBlank_of_isWordChar first)
  rw [trim, kept, ← List.append_assoc, trimRight_append_cons solid, List.append_assoc]

/-- Before a word no blank is left to be taken. -/
theorem IsWord.stops {s : String} (word : IsWord s) (rest : List Char) :
    Reader.Stops isInlineBlank (s.toList ++ rest) := by
  obtain ⟨c, cs, split, first⟩ := word.first rest
  rw [split, Reader.stops_cons]
  exact isInlineBlank_eq_false_of_isWordChar first

/-- Blanks, or what comes after them, stop a word. -/
theorem stops_blanks {bs rest : List Char} (blank : ∀ c ∈ bs, isInlineBlank c)
    (stops : bs = [] → Reader.Stops isWordChar rest) : Reader.Stops isWordChar (bs ++ rest) := by
  cases bs with
  | nil => exact stops rfl
  | cons c bs =>
    rw [List.cons_append, Reader.stops_cons, ← Bool.not_eq_true]
    intro letter
    have solid := isInlineBlank_eq_false_of_isWordChar letter
    rw [blank c (List.mem_cons_self ..)] at solid
    cases solid

theorem toList_intercalate_cons (sep s : String) (ss : List String) :
    (sep.intercalate (s :: ss)).toList = s.toList ++ ss.flatMap fun t => sep.toList ++ t.toList := by
  induction ss generalizing s with
  | nil => simp
  | cons t ss ih =>
    have split : sep.intercalate (s :: t :: ss) = s ++ sep ++ sep.intercalate (t :: ss) :=
      String.intercalate_cons_cons
    simp [split, ih]

end DiagramText.Text

namespace DiagramText.Reader

open Text (IsWord)

theorem reads_identifier {name : String} (word : IsWord name) {rest : List Char}
    (stops : Stops Text.isWordChar rest) : Reads identifier (name.toList ++ rest) name rest := by
  have := (reads_run1 word.some word.chars stops).map String.ofList
  rwa [String.ofList_toList] at this

theorem refuses_identifier {cs : List Char} (stops : Stops Text.isWordChar cs) :
    Refuses identifier cs := (refuses_run1 stops).map _

theorem reads_quoted {cs : List Char} (free : '"' ∉ cs) (rest : List Char) :
    Reads quoted ('"' :: (cs ++ '"' :: rest)) (String.ofList (Text.decodeEntities cs)) rest :=
  (reads_chars ['"'] _).bind
    ((reads_run (fun c hc => by simp; rintro rfl; exact free hc) (by simp)).bind
      ((reads_chars ['"'] _).bind (Reads.pure _ _)))

theorem refuses_quoted {cs : List Char} (other : ¬ ['"'] <+: cs) : Refuses quoted cs :=
  (refuses_chars other).bind _

/-! ### Texts to the end of the line -/

variable {text source : String} {rest : List Char}

theorem reads_restTrimmed (cs : List Char) :
    Reads restTrimmed cs (String.ofList (Text.trim cs)) [] :=
  (reads_rest cs).map fun cs => String.ofList (Text.trim cs)

theorem reads_tight (tight : Text.trimmed text = text) :
    Reads restTrimmed text.toList text [] := by
  have taken := reads_restTrimmed text.toList
  rwa [Text.trim_of_trimmed tight, String.ofList_toList] at taken

theorem stops_tight (tight : Text.trimmed text = text) : Stops Text.isInlineBlank text.toList := by
  intro c first
  rw [← tight, Text.toList_trimmed] at first
  rw [← Bool.not_eq_true]
  intro blank
  have out := Text.not_isBlank_of_head?_trim first
  rw [Text.isBlank_of_isInlineBlank blank] at out
  cases out

theorem reads_colonLabel_none : Reads colonLabel [] none [] := by
  have noColon : Refuses (inlineBlanks *> token ":" *> restTrimmed) [] :=
    ((reads_noBlanks (by simp)).refuses_seqRight (refuses_token (by decide))).seqRight _
  exact noColon.optional.bind (Reads.pure none [])

theorem reads_colonLabel_text {bs : List Char} (blank : ∀ c ∈ bs, Text.isInlineBlank c) (cs : List Char) :
    Reads colonLabel (bs ++ ':' :: cs) (nonEmpty (String.ofList (Text.trim cs))) [] :=
  (((reads_inlineBlanks blank (by simp; decide)).seqRight
    (reads_token_char rfl cs)).seqRight (reads_restTrimmed cs)).optional.bind (Reads.pure _ [])

theorem reads_colonLabel_blanks {bs : List Char} (blank : ∀ c ∈ bs, Text.isInlineBlank c)
    (tight : Text.trimmed text = text) :
    Reads colonLabel (bs ++ ':' :: ' ' :: text.toList) (nonEmpty text) [] := by
  have taken := reads_colonLabel_text blank (' ' :: text.toList)
  rwa [Text.trim_space, Text.trim_of_trimmed tight, String.ofList_toList] at taken

theorem reads_colonLabel (tight : Text.trimmed text = text) :
    Reads colonLabel (':' :: ' ' :: text.toList) (nonEmpty text) [] :=
  @reads_colonLabel_blanks text [] (by simp) tight

/-! ### Keywords at the front of a word -/

/-- A keyword at the front of an id is no keyword: no blank comes after it. -/
theorem refuses_keyword {α β : Type} {keywords : List (String × α)} {next : α → Unit → Reader β}
    (plain : ∀ p ∈ keywords, p.1.toList.all Text.isWordChar) (word : IsWord source)
    (stops : Stops Text.isWordChar rest) (tight : Stops Text.isInlineBlank rest) :
    Refuses (oneOf keywords >>= fun a => inlineBlanks1 >>= next a)
      (source.toList ++ rest) := by
  apply refuses_oneOf_bind
  intro p there more split
  have within : p.1.toList <+: source.toList :=
    prefix_of_stops (List.all_eq_true.1 (plain p there)) stops ⟨more, split.symm⟩
  obtain ⟨last, whole⟩ := within
  obtain rfl : last ++ rest = more := by
    rw [← whole, List.append_assoc] at split
    exact List.append_cancel_left split
  refine (refuses_inlineBlanks1 ?_).bind _
  cases last with
  | nil => exact tight
  | cons c last =>
    have first : Text.isWordChar c := word.chars c (by simp [← whole])
    simpa using Text.isInlineBlank_eq_false_of_isWordChar first

end DiagramText.Reader
