import DiagramText.Proofs.Quoting
import DiagramText.Validation.Bracket

/-! Scanning a line. Text is silent when the scan is where it was after it, in whatever brackets it
stands; pieces that are silent can be put together. A line is balanced when it leaves the brackets as
they were. What is open below it makes no difference, so that scanning it once tells. -/
namespace DiagramText.Validation

open Cursor (step)
open Text (IsWord)

variable {f : Bool} {k : LineContext} {s t : Cursor} {c : Char} {cs ds : List Char}

/-! ### One character -/

/-- What a character does to the scan. -/
inductive Move where
  | pass
  | quote
  | bar
  | opens (closer : Char)
  | closes (bracket : Char)
deriving DecidableEq

/-- The move of a character, as far as it depends on what is around it. -/
def moveOf (flowchart quoted inEdgeLabel atDepth behindId : Bool) (c : Char) : Move :=
  if c = '"' then .quote
  else if quoted then .pass
  else if c = '|' ∧ flowchart ∧ atDepth then .bar
  else if inEdgeLabel then .pass
  else match closerOf? c with
    | some closer => .opens closer
    | none =>
      if c = '>' ∧ flowchart ∧ atDepth ∧ behindId then .opens ']'
      else if isCloser c then .closes c
      else .pass

def Move.run (line : Nat) (c : Char) (s : Cursor) : Move → Cursor
  | .pass => { s with previous := some c }
  | .quote => { s with quoted := !s.quoted, previous := some c }
  | .bar => { s with inEdgeLabel := !s.inEdgeLabel, previous := some c }
  | .opens closer => { s with brackets := s.brackets.push closer line, previous := some c }
  | .closes bracket => { s with brackets := s.brackets.close bracket line, previous := some c }

theorem step_eq (k : LineContext) (s : Cursor) (c : Char) :
    step k s c =
      (moveOf k.flowchart s.quoted s.inEdgeLabel (s.atDepth k) s.behindId c).run k.line c s := by
  unfold step moveOf
  cases closerOf? c <;> dsimp only <;> repeat' split
  all_goals rfl

/-- The characters that the scan does not pass over. -/
def marks (flowchart : Bool) : List Char :=
  ['"', '[', '(', '\x7b', ']', ')', '\x7d'] ++ if flowchart then ['|', '>'] else []

theorem moveOf_plain (plain : c ∉ marks f) (quoted inEdgeLabel atDepth behindId : Bool) :
    moveOf f quoted inEdgeLabel atDepth behindId c = .pass := by
  simp only [marks, List.mem_append, List.mem_cons, List.not_mem_nil, or_false, not_or] at plain
  obtain ⟨⟨quote, square, round, curly, square', round', curly'⟩, mark⟩ := plain
  have noOpening : closerOf? c = none := by
    unfold closerOf?
    split <;> first | contradiction | rfl
  have noCloser : isCloser c = false := by simp [isCloser, square', round', curly']
  have noBar : ¬ (c = '|' ∧ f) := by
    rintro ⟨rfl, flowchart⟩
    simp [flowchart] at mark
  have noShape : ¬ (c = '>' ∧ f) := by
    rintro ⟨rfl, flowchart⟩
    simp [flowchart] at mark
  simp only [moveOf, ← and_assoc, quote, noBar, noOpening, noShape, noCloser, false_and, if_false,
    Bool.false_eq_true, ite_self]

theorem step_plain (plain : c ∉ marks k.flowchart) (s : Cursor) :
    step k s c = { s with previous := some c } := by
  rw [step_eq, moveOf_plain plain]
  rfl

/-- A step looks at the character before only for the end of an id. -/
theorem step_previous (k : LineContext) (s : Cursor) {p : Option Char} (c : Char)
    (same : k.flowchart → { s with previous := p }.behindId = s.behindId) :
    step k { s with previous := p } c = step k s c := by
  cases flowchart : k.flowchart with
  | false => simp [step, flowchart]
  | true =>
    have same := same flowchart
    simp only [step, Cursor.atDepth] at same ⊢
    rw [same]

/-! ### Silent text -/

/-- Text that leaves the scan where it was, outside of quotes: whatever it opens it closes. -/
def Silent (flowchart : Bool) (cs : List Char) : Prop :=
  ∀ (k : LineContext) (s : Cursor), k.flowchart = flowchart → s.quoted = false →
    ∃ p, cs.foldl (step k) s = { s with previous := p }

theorem silent_nil : Silent f [] := fun _ s _ _ => ⟨s.previous, rfl⟩

theorem Silent.append (first : Silent f cs) (second : Silent f ds) : Silent f (cs ++ ds) := by
  intro k s flowchart outside
  obtain ⟨p, one⟩ := first k s flowchart outside
  obtain ⟨q, two⟩ := second k { s with previous := p } flowchart outside
  exact ⟨q, by rw [List.foldl_append, one, two]⟩

/-- Characters without a meaning are passed over in quotes too. -/
theorem foldl_plain (plain : ∀ c ∈ cs, c ∉ marks k.flowchart) (s : Cursor) :
    cs.foldl (step k) s = { s with previous := cs.getLast?.or s.previous } := by
  induction cs generalizing s with
  | nil => rfl
  | cons c cs ih =>
    rw [List.forall_mem_cons] at plain
    rw [List.foldl_cons, step_plain plain.1, ih plain.2, List.getLast?_cons]
    cases cs.getLast? <;> rfl

theorem silent_of_plain (plain : ∀ c ∈ cs, c ∉ marks f) : Silent f cs :=
  fun _ s flowchart _ => ⟨_, foldl_plain (flowchart ▸ plain) s⟩

theorem silent_of_all (plain : cs.all fun c => decide (c ∉ marks f)) : Silent f cs :=
  silent_of_plain (Text.forall_mem_of_all plain)

theorem silent_space : Silent f [' '] := by cases f <;> exact silent_of_all rfl

/-- A class of characters without any mark. -/
theorem not_mem_marks {p : Char → Bool} (none : (marks f).all fun m => decide (p m = false)) (inside : p c) :
    c ∉ marks f := by
  intro mark
  have outside : ∀ m ∈ marks f, p m = false := Text.forall_mem_of_all none
  rw [outside c mark] at inside
  cases inside

theorem not_mem_marks_of_isWordChar (word : Text.isWordChar c) : c ∉ marks f :=
  not_mem_marks (by cases f <;> rfl) word

theorem silent_word {w : String} (word : IsWord w) : Silent f w.toList :=
  silent_of_plain fun c h => not_mem_marks_of_isWordChar (word.chars c h)

theorem not_mem_marks_of_isBlank (blank : Text.isBlank c) : c ∉ marks f :=
  not_mem_marks (by cases f <;> rfl) blank

/-- Between quotes nothing counts but the next quote. -/
theorem foldl_within_quotes (free : '"' ∉ cs) (inside : s.quoted = true) :
    ∃ p, cs.foldl (step k) s = { s with previous := p } := by
  induction cs generalizing s with
  | nil => exact ⟨s.previous, rfl⟩
  | cons c cs ih =>
    rw [List.mem_cons, not_or] at free
    have first : step k s c = { s with previous := some c } := by
      simp [step, Ne.symm free.1, inside]
    obtain ⟨p, rest⟩ := ih (s := { s with previous := some c }) free.2 inside
    exact ⟨p, by rw [List.foldl_cons, first, rest]⟩

theorem step_quote (k : LineContext) (s : Cursor) :
    step k s '"' = { s with quoted := !s.quoted, previous := some '"' } := rfl

/-- Of a text between quotes the scan keeps nothing. -/
theorem foldl_quoted (free : '"' ∉ cs) (outside : s.quoted = false) (after : List Char) :
    ('"' :: (cs ++ '"' :: after)).foldl (step k) s = after.foldl (step k) { s with previous := some '"' } := by
  obtain ⟨p, within⟩ := foldl_within_quotes (k := k) (s := { s with quoted := true, previous := some '"' }) free rfl
  rw [List.foldl_cons, step_quote, outside, Bool.not_false, List.foldl_append, within, List.foldl_cons, step_quote]
  simp [← outside]

theorem silent_quoted (w : String) : Silent f (Text.quoted w).toList := by
  intro k s _ outside
  rw [Text.toList_quoted, foldl_quoted (Text.not_mem_encodeQuotes w.toList) outside]
  exact ⟨some '"', rfl⟩

theorem quoted_step (k : LineContext) (s : Cursor) (c : Char) :
    (step k s c).quoted = if c = '"' then !s.quoted else s.quoted := by
  by_cases quote : c = '"'
  · rw [if_pos quote, quote, step_quote]
  · rw [if_neg quote, step, if_neg quote]
    repeat' split
    all_goals rfl

/-- After an even number of quotes the scan is as far inside of quotes as before them. -/
theorem quoted_foldl (k : LineContext) (s : Cursor) (cs : List Char) :
    (cs.foldl (step k) s).quoted = if Even (cs.count '"') then s.quoted else !s.quoted := by
  rw [← Text.quotedAfter_eq]
  induction cs generalizing s with
  | nil => rfl
  | cons c cs ih =>
    rw [List.foldl_cons, ih, quoted_step]
    rfl

theorem outside_of_even (even : Even (cs.count '"')) (outside : s.quoted = false) :
    (cs.foldl (step k) s).quoted = false := by
  rw [quoted_foldl, if_pos even, outside]

/-- An opening bracket within a line; in an edge label it has no meaning. -/
theorem step_square (outside : s.quoted = false) : step k s '[' =
    if s.inEdgeLabel then { s with previous := some '[' }
    else { s with brackets := s.brackets.push ']' k.line, previous := some '[' } := by
  cases label : s.inEdgeLabel <;> simp [step, outside, label, closerOf?]

/-- Square brackets around silent text. -/
theorem Silent.square (silent : Silent f cs) : Silent f ('[' :: (cs ++ [']'])) := by
  intro k s flowchart outside
  refine ⟨some ']', ?_⟩
  rw [List.foldl_cons, List.foldl_append, step_square outside]
  by_cases label : s.inEdgeLabel = true
  · obtain ⟨p, same⟩ := silent k { s with previous := some '[' } flowchart outside
    rw [if_pos label, same, List.foldl_cons, List.foldl_nil]
    simp [step, outside, label]
  · obtain ⟨p, same⟩ := silent k
      { s with brackets := s.brackets.push ']' k.line, previous := some '[' } flowchart outside
    rw [if_neg label, same, List.foldl_cons, List.foldl_nil]
    simp [step, outside, label, closerOf?, isCloser, Brackets.push, Brackets.close]

/-! ### Balanced text -/

/-- A line that leaves the brackets as they were, whatever is open and whichever line it is. -/
def Balanced (flowchart : Bool) (cs : List Char) : Prop :=
  ∀ b n, scanLine flowchart b n cs = b

theorem Silent.balanced (silent : Silent f cs) : Balanced f cs := by
  intro b n
  obtain ⟨p, same⟩ := silent ⟨f, n, b.openings.length⟩ (.start b) rfl rfl
  rw [scanLine, same]
  rfl

/-- The brackets do not depend on the character before the text, unless an id ends there. -/
theorem brackets_foldl_previous (cs : List Char) {p : Option Char}
    (same : k.flowchart → { s with previous := p }.behindId = s.behindId) :
    (cs.foldl (step k) { s with previous := p }).brackets = (cs.foldl (step k) s).brackets := by
  cases cs with
  | nil => rfl
  | cons c cs => rw [List.foldl_cons, step_previous k s c same, List.foldl_cons]

/-- Where `>` has no meaning, silent text in front makes no difference. -/
theorem scanLine_silent_append (silent : Silent false cs) (ds : List Char) (b : Brackets) (n : Nat) :
    scanLine false b n (cs ++ ds) = scanLine false b n ds := by
  obtain ⟨p, same⟩ := silent ⟨false, n, b.openings.length⟩ (.start b) rfl rfl
  rw [scanLine, scanLine, List.foldl_append, same]
  exact brackets_foldl_previous ds nofun

theorem Silent.append_balanced (silent : Silent false cs) (balanced : Balanced false ds) :
    Balanced false (cs ++ ds) :=
  fun b n => (scanLine_silent_append silent ds b n).trans (balanced b n)

/-- A quote that is left open hides what is behind it. -/
theorem scanLine_openQuote (even : Even (cs.count '"')) (free : '"' ∉ ds) (b : Brackets) (n : Nat) :
    scanLine f b n (cs ++ '"' :: ds) = scanLine f b n cs := by
  have outside : (cs.foldl (step ⟨f, n, b.openings.length⟩) (.start b)).quoted = false := outside_of_even even rfl
  obtain ⟨p, within⟩ := foldl_within_quotes (k := ⟨f, n, b.openings.length⟩) (s :=
    { cs.foldl (step ⟨f, n, b.openings.length⟩) (.start b) with quoted := true, previous := some '"' }) free rfl
  rw [scanLine, List.foldl_append, List.foldl_cons, step_quote, outside]
  exact (congrArg Cursor.brackets within).trans rfl

theorem balanced_openQuote (free : '"' ∉ cs) : Balanced f ('"' :: cs) :=
  scanLine_openQuote (by decide : Even (([] : List Char).count '"')) free

/-! ### Blanks -/

theorem foldl_blanks (blank : ∀ c ∈ cs, Text.isBlank c) (k : LineContext) (s : Cursor) :
    cs.foldl (step k) s = { s with previous := cs.getLast?.or s.previous } :=
  foldl_plain (fun c h => not_mem_marks_of_isBlank (blank c h)) s

theorem scanLine_append_blanks (blank : ∀ c ∈ ds, Text.isBlank c) (b : Brackets) (n : Nat) :
    scanLine f b n (cs ++ ds) = scanLine f b n cs := by
  rw [scanLine, List.foldl_append, foldl_blanks blank]
  rfl

theorem scanLine_blanks_append (blank : ∀ c ∈ cs, Text.isBlank c) (b : Brackets) (n : Nat) :
    scanLine f b n (cs ++ ds) = scanLine f b n ds := by
  rw [scanLine, List.foldl_append, foldl_blanks blank]
  apply brackets_foldl_previous
  intro _
  cases last : cs.getLast? with
  | none => rfl
  | some c =>
    have noWord : Text.isWordChar c = false := by
      rw [← Bool.not_eq_true]
      intro word
      have solid := Text.not_isBlank_of_isWordChar word
      rw [blank c (List.mem_of_getLast? last)] at solid
      cases solid
    simpa [Cursor.behindId, Cursor.start] using noWord

/-- Trimming a line makes no difference to the scan. -/
theorem scanLine_trim (cs : List Char) (b : Brackets) (n : Nat) :
    scanLine f b n (Text.trim cs) = scanLine f b n cs := by
  obtain ⟨before, after, split, blankBefore, blankAfter⟩ := Text.exists_trim cs
  conv_rhs => rw [split]
  rw [scanLine_blanks_append blankBefore, scanLine_append_blanks blankAfter]

/-- Nor does it to the scan of what comes before a separator that is no blank. -/
theorem scanLine_takeWhile_trim {p : Char → Bool} (solid : ∀ c, Text.isBlank c → p c) (cs : List Char)
    (b : Brackets) (n : Nat) :
    scanLine f b n ((Text.trim cs).takeWhile p) = scanLine f b n (cs.takeWhile p) := by
  obtain ⟨before, after, split, blankBefore, blankAfter⟩ := Text.exists_trim cs
  have inside : ∀ c ∈ after.takeWhile p, Text.isBlank c :=
    fun c h => blankAfter c ((List.takeWhile_prefix p).subset h)
  conv_rhs => rw [split, List.takeWhile_append_of_pos fun c h => solid c (blankBefore c h)]
  rw [scanLine_blanks_append blankBefore, List.takeWhile_append]
  split
  · next whole =>
    rw [scanLine_append_blanks inside, (List.takeWhile_prefix p).eq_of_length whole]
  · rfl

/-! ### Alone and among others -/

/-- Two cursors in the same text, one alone and one where other brackets are open below it. -/
structure Framed (base : Brackets) (alone among : Cursor) : Prop where
  openings : ∃ os, among.brackets.openings = os ++ base.openings ∧
    os.map (·.closer) = alone.brackets.openings.map (·.closer)
  clean : alone.brackets.strays = []
  strays : among.brackets.strays = base.strays
  quoted : among.quoted = alone.quoted
  inEdgeLabel : among.inEdgeLabel = alone.inEdgeLabel
  previous : among.previous = alone.previous

variable {base : Brackets} {m n : Nat}

theorem Framed.atDepth (framed : Framed base s t) :
    t.atDepth ⟨f, n, base.openings.length⟩ = s.atDepth ⟨f, m, 0⟩ := by
  obtain ⟨os, split, same⟩ := framed.openings
  have lengths := congrArg List.length same
  simp only [List.length_map] at lengths
  rw [Bool.eq_iff_iff, Cursor.atDepth, Cursor.atDepth, decide_eq_true_iff, decide_eq_true_iff, split,
    List.length_append]
  dsimp only
  omega

theorem Framed.push (framed : Framed base s t) (closer c : Char) (m n : Nat) :
    Framed base { s with brackets := s.brackets.push closer m, previous := some c }
      { t with brackets := t.brackets.push closer n, previous := some c } := by
  obtain ⟨os, split, same⟩ := framed.openings
  exact ⟨⟨⟨closer, n⟩ :: os, by simp [Brackets.push, split], by simp [Brackets.push, same]⟩,
    framed.clean, framed.strays, framed.quoted, framed.inEdgeLabel, rfl⟩

/-- A bracket that closes something alone closes the same among others. -/
theorem Framed.close (framed : Framed base s t) (closer c : Char) (m n : Nat)
    (clean : (s.brackets.close closer m).strays = []) :
    Framed base { s with brackets := s.brackets.close closer m, previous := some c }
      { t with brackets := t.brackets.close closer n, previous := some c } := by
  obtain ⟨os, split, same⟩ := framed.openings
  cases alone : s.brackets.openings with
  | nil => simp [Brackets.close, alone] at clean
  | cons o rest =>
    rw [alone, List.map_cons] at same
    obtain ⟨o', rest', rfl, own, others⟩ := List.map_eq_cons_iff.1 same
    by_cases closes : o.closer = closer
    · have closes' : o'.closer = closer := own.trans closes
      refine ⟨⟨rest', ?_, ?_⟩, clean, ?_, framed.quoted, framed.inEdgeLabel, rfl⟩
      · simp [Brackets.close, split, closes']
      · simp [Brackets.close, alone, closes, others]
      · simp [Brackets.close, split, closes', framed.strays]
    · simp [Brackets.close, alone, closes] at clean

theorem Framed.step (framed : Framed base s t)
    (clean : (step ⟨f, m, 0⟩ s c).brackets.strays = []) :
    Framed base (step ⟨f, m, 0⟩ s c) (step ⟨f, n, base.openings.length⟩ t c) := by
  have behind : t.behindId = s.behindId := by rw [Cursor.behindId, framed.previous, Cursor.behindId]
  rw [step_eq] at clean
  rw [step_eq, step_eq, framed.quoted, framed.inEdgeLabel, framed.atDepth (f := f) (m := m) (n := n), behind]
  -- The same things are around both, so they make the same move.
  generalize moveOf f s.quoted s.inEdgeLabel (s.atDepth ⟨f, m, 0⟩) s.behindId c = move at clean ⊢
  cases move with
  | pass => exact ⟨framed.openings, framed.clean, framed.strays, framed.quoted, framed.inEdgeLabel, rfl⟩
  | quote =>
    exact ⟨framed.openings, framed.clean, framed.strays, congrArg (!·) framed.quoted, framed.inEdgeLabel, rfl⟩
  | bar =>
    exact ⟨framed.openings, framed.clean, framed.strays, framed.quoted, congrArg (!·) framed.inEdgeLabel, rfl⟩
  | opens closer => exact framed.push closer c m n
  | closes bracket => exact framed.close bracket c m n clean

/-- Strays are never taken back. -/
theorem strays_foldl (k : LineContext) (s : Cursor) (cs : List Char) :
    s.brackets.strays <+: (cs.foldl (Cursor.step k) s).brackets.strays := by
  induction cs generalizing s with
  | nil => exact List.prefix_refl _
  | cons c cs ih =>
    refine List.IsPrefix.trans ?_ (ih _)
    rw [step_eq]
    cases moveOf k.flowchart s.quoted s.inEdgeLabel (s.atDepth k) s.behindId c with
    | pass | quote | bar | opens => exact List.prefix_refl _
    | closes bracket =>
      simp only [Move.run, Brackets.close]
      repeat' split
      all_goals simp

theorem Framed.foldl (framed : Framed base s t)
    (clean : (cs.foldl (Cursor.step ⟨f, m, 0⟩) s).brackets.strays = []) :
    Framed base (cs.foldl (Cursor.step ⟨f, m, 0⟩) s)
      (cs.foldl (Cursor.step ⟨f, n, base.openings.length⟩) t) := by
  induction cs generalizing s t with
  | nil => exact framed
  | cons c cs ih =>
    have first : (Cursor.step ⟨f, m, 0⟩ s c).brackets.strays = [] :=
      List.prefix_nil.1 (clean ▸ strays_foldl ⟨f, m, 0⟩ (Cursor.step ⟨f, m, 0⟩ s c) cs)
    exact ih (framed.step first) clean

/-- A line that is balanced alone is balanced anywhere. -/
theorem balanced_iff : Balanced f cs ↔ scanLine f .empty 0 cs = .empty := by
  constructor
  · exact fun balanced => balanced .empty 0
  · intro alone b n
    have started : Framed b (.start .empty) (.start b) :=
      ⟨⟨[], rfl, rfl⟩, rfl, rfl, rfl, rfl, rfl⟩
    have framed : Framed b (cs.foldl (Cursor.step ⟨f, 0, 0⟩) (.start .empty))
        (cs.foldl (Cursor.step ⟨f, n, b.openings.length⟩) (.start b)) :=
      started.foldl (congrArg Brackets.strays alone)
    obtain ⟨os, split, same⟩ := framed.openings
    have none : os = [] := by
      rw [show (cs.foldl (Cursor.step ⟨f, 0, 0⟩) (.start .empty)).brackets = .empty from alone] at same
      exact List.map_eq_nil_iff.1 same
    have strays := framed.strays
    rw [none, List.nil_append] at split
    show (cs.foldl (Cursor.step ⟨f, n, b.openings.length⟩) (.start b)).brackets = b
    generalize (cs.foldl (Cursor.step ⟨f, n, b.openings.length⟩) (.start b)).brackets = left at split strays
    cases left
    simp_all

instance : Decidable (Balanced f cs) := decidable_of_iff' _ balanced_iff

end DiagramText.Validation
