import DiagramText.Proofs.Validation.Findings

/-! Nesting. Outside of flowcharts the bracket scan decides whether the brackets of a text, put together
over its lines, form a nested word: it has nothing to report about brackets just in case they do. A stack
machine stands between the two, which the scan runs and which accepts the nested words. -/
namespace DiagramText.Validation

open Cursor (step)

variable {c opening closer : Char} {stack w u inner rest cs : List Char}

/-! ### Nested words -/

/-- The brackets, each with the one that closes it. -/
def bracketPairs : List (Char × Char) := [('[', ']'), ('(', ')'), ('\x7b', '\x7d')]

/-- A bracket of one of the pairs. -/
def isBracket (c : Char) : Bool := bracketPairs.any fun p => p.1 == c || p.2 == c

/-- Words in which every bracket is closed by its partner, the innermost first. -/
inductive Nested : List Char → Prop where
  | nil : Nested []
  | pair {opening closer : Char} {inner rest : List Char} (own : (opening, closer) ∈ bracketPairs)
      (inside : Nested inner) (after : Nested rest) : Nested (opening :: (inner ++ closer :: rest))

theorem closerOf?_eq_some_iff : closerOf? opening = some closer ↔ (opening, closer) ∈ bracketPairs := by
  constructor
  · intro own
    unfold closerOf? at own
    split at own <;> cases own <;> decide
  · intro own
    simp only [bracketPairs, List.mem_cons, List.not_mem_nil, or_false, Prod.mk.injEq] at own
    rcases own with ⟨rfl, rfl⟩ | ⟨rfl, rfl⟩ | ⟨rfl, rfl⟩ <;> rfl

/-- What closes a bracket opens none. -/
theorem closerOf?_of_isCloser (closes : isCloser c) : closerOf? c = none := by
  simp only [isCloser, Bool.or_eq_true, beq_iff_eq] at closes
  rcases closes with (rfl | rfl) | rfl <;> rfl

theorem isBracket_iff : isBracket c ↔ (∃ closer, closerOf? c = some closer) ∨ isCloser c := by
  constructor
  · intro bracket
    simp only [isBracket, bracketPairs, List.any_cons, List.any_nil, Bool.or_false, Bool.or_eq_true,
      beq_iff_eq] at bracket
    rcases bracket with (rfl | rfl) | (rfl | rfl) | rfl | rfl
    all_goals first
      | exact .inl ⟨_, rfl⟩
      | exact .inr rfl
  · rintro (⟨closer, own⟩ | closes)
    · have among := closerOf?_eq_some_iff.1 own
      exact List.any_eq_true.2 ⟨_, among, by simp⟩
    · simp only [isCloser, Bool.or_eq_true, beq_iff_eq] at closes
      rcases closes with (rfl | rfl) | rfl <;> rfl

/-! ### The stack machine -/

/-- What waits to be closed after a character, the innermost first; none if something came that was not
waited for. -/
def settleOne (stack : List Char) (c : Char) : Option (List Char) :=
  match closerOf? c with
  | some closer => some (closer :: stack)
  | none =>
    match stack with
    | [] => none
    | top :: rest => if top = c then some rest else none

/-- What waits to be closed after a word. -/
def settle : List Char → List Char → Option (List Char)
  | stack, [] => some stack
  | stack, c :: cs => (settleOne stack c).bind (settle · cs)

theorem settle_append (stack u w : List Char) :
    settle stack (u ++ w) = (settle stack u).bind (settle · w) := by
  induction u generalizing stack with
  | nil => rfl
  | cons c u ih =>
    rw [List.cons_append, settle, settle, Option.bind_assoc]
    exact congrArg (Option.bind _) (funext fun stack => ih stack)

theorem settleOne_opening (own : closerOf? opening = some closer) (stack : List Char) :
    settleOne stack opening = some (closer :: stack) := by
  unfold settleOne
  rw [own]

theorem settleOne_closer (closes : isCloser c) (stack : List Char) :
    settleOne stack c = match stack with
      | [] => none
      | top :: rest => if top = c then some rest else none := by
  unfold settleOne
  rw [closerOf?_of_isCloser closes]

/-- A nested word leaves everything waiting that was. -/
theorem Nested.settle (nested : Nested w) (stack : List Char) : settle stack w = some stack := by
  induction nested generalizing stack with
  | nil => rfl
  | @pair opening closer inner rest own _ _ inside after =>
    have opens := closerOf?_eq_some_iff.2 own
    have closes := isCloser_of_closerOf? opens
    rw [Validation.settle, settleOne_opening opens, Option.bind_some, settle_append, inside, Option.bind_some,
      Validation.settle, settleOne_closer closes]
    simpa using after stack

/-- Words that close all that waits, one after the other, with nested words in between. -/
inductive Closing : List Char → List Char → Prop where
  | last {w : List Char} (nested : Nested w) : Closing [] w
  | next {top : Char} {stack w rest : List Char} (nested : Nested w) (later : Closing stack rest) :
      Closing (top :: stack) (w ++ top :: rest)

/-- A pair of brackets may come before. -/
theorem Closing.pair (own : (opening, closer) ∈ bracketPairs) (inside : Nested inner)
    (closing : Closing stack rest) : Closing stack (opening :: (inner ++ closer :: rest)) := by
  cases closing with
  | last nested => exact .last (.pair own inside nested)
  | @next top stack w rest nested later =>
    have longer : Closing (top :: stack) ((opening :: (inner ++ closer :: w)) ++ top :: rest) :=
      .next (.pair own inside nested) later
    rwa [List.cons_append, List.append_assoc] at longer

theorem closing_of_settle (settled : Validation.settle stack w = some []) : Closing stack w := by
  induction w generalizing stack with
  | nil =>
    cases settled
    exact .last .nil
  | cons c w ih =>
    obtain ⟨next, one, others⟩ := Option.bind_eq_some_iff.1 settled
    have closing := ih others
    unfold settleOne at one
    split at one
    · next closer own =>
      obtain rfl := Option.some.inj one
      -- What closes the new bracket splits the rest of the word.
      cases closing with
      | next inside later => exact .pair (closerOf?_eq_some_iff.1 own) inside later
    · split at one
      · cases one
      · next top rest =>
        split at one
        · next same =>
          obtain rfl := Option.some.inj one
          exact same ▸ .next .nil closing
        · cases one

/-- The machine accepts the nested words. -/
theorem nested_iff_settle : Nested w ↔ settle [] w = some [] := by
  refine ⟨fun nested => nested.settle [], fun settled => ?_⟩
  cases closing_of_settle settled with
  | last nested => exact nested

instance : Decidable (Nested w) := decidable_of_iff' _ nested_iff_settle

/-! ### Text outside of quotes -/

/-- Every second piece, from the first on. -/
def everySecond : List (List Char) → List Char
  | [] => []
  | [p] => p
  | p :: _ :: ps => p ++ everySecond ps

/-- A text without its quoted runs, each of them from an opening quote to the next one or to the end. -/
def unquoted (cs : List Char) : List Char := everySecond (Text.pieces '"' cs)

theorem everySecond_cons (p : List Char) (ps : List (List Char)) :
    everySecond (p :: ps) = p ++ everySecond ps.tail := by
  cases ps with
  | nil => exact (List.append_nil p).symm
  | cons q ps => rfl

/-- The brackets of a text that stand outside of quotes. -/
def bracketsOf (cs : List Char) : List Char := (unquoted cs).filter isBracket

/-- The brackets of a text that is read from inside a quoted run or from outside of one. -/
def bracketsFrom (quoted : Bool) (cs : List Char) : List Char :=
  (everySecond (if quoted then (Text.pieces '"' cs).tail else Text.pieces '"' cs)).filter isBracket

theorem bracketsFrom_nil (quoted : Bool) : bracketsFrom quoted [] = [] := by cases quoted <;> rfl

theorem bracketsFrom_quote (quoted : Bool) (cs : List Char) :
    bracketsFrom quoted ('"' :: cs) = bracketsFrom (!quoted) cs := by
  unfold bracketsFrom
  rw [Text.pieces, if_pos rfl]
  cases quoted with
  | false => exact congrArg (List.filter isBracket) (everySecond_cons [] _)
  | true => rfl

theorem bracketsFrom_cons (other : c ≠ '"') (quoted : Bool) (cs : List Char) :
    bracketsFrom quoted (c :: cs) = (if quoted then [] else [c].filter isBracket) ++ bracketsFrom quoted cs := by
  unfold bracketsFrom
  rw [Text.pieces_cons other]
  cases split : Text.pieces '"' cs with
  | nil => exact absurd split (Text.pieces_ne_nil _ _)
  | cons p ps =>
    cases quoted with
    | false =>
      simp only [List.modifyHead_cons, Bool.false_eq_true, if_false, everySecond_cons]
      rw [List.cons_append, List.filter_cons, List.filter_cons]
      split <;> rfl
    | true => rfl

/-! ### The scan runs the machine -/

/-- What the brackets wait for, unless there is a stray. -/
def Brackets.pending (b : Brackets) : Option (List Char) :=
  if b.strays = [] then some (b.openings.map (·.closer)) else none

theorem Brackets.pending_push (b : Brackets) (n : Nat) (own : closerOf? opening = some closer) :
    (b.push closer n).pending = b.pending.bind (settleOne · opening) := by
  unfold pending push
  split
  · exact (settleOne_opening own _).symm
  · rfl

theorem Brackets.pending_close (b : Brackets) (n : Nat) (closes : isCloser c) :
    (b.close c n).pending = b.pending.bind (settleOne · c) := by
  unfold pending close
  cases b.openings with
  | nil => by_cases clean : b.strays = [] <;> simp [clean, settleOne_closer closes]
  | cons o rest =>
    by_cases own : o.closer = c <;> by_cases clean : b.strays = [] <;> simp [own, clean, settleOne_closer closes]

/-- Takes a character that stands outside of quotes and of edge labels. -/
def Brackets.take (b : Brackets) (c : Char) (n : Nat) : Brackets :=
  match closerOf? c with
  | some closer => b.push closer n
  | none => if isCloser c then b.close c n else b

theorem Brackets.pending_take (b : Brackets) (c : Char) (n : Nat) :
    (b.take c n).pending = b.pending.bind (settle · ([c].filter isBracket)) := by
  have one (bracket : isBracket c) (stack : List Char) :
      settle stack ([c].filter isBracket) = settleOne stack c := by
    rw [List.filter_cons_of_pos bracket]
    exact Option.bind_fun_some _
  unfold take
  cases own : closerOf? c with
  | some closer =>
    simp only [one (isBracket_iff.2 (.inl ⟨closer, own⟩))]
    exact b.pending_push n own
  | none =>
    by_cases closes : isCloser c
    · simp only [one (isBracket_iff.2 (.inr closes)), closes, if_true]
      exact b.pending_close n closes
    · have noBracket : ¬ isBracket c := by
        rw [isBracket_iff]
        simp [own, closes]
      rw [List.filter_cons_of_neg noBracket]
      exact (congrArg pending (if_neg closes)).trans (Option.bind_fun_some _).symm

theorem step_outside {k : LineContext} {s : Cursor} (plain : k.flowchart = false) (outside : s.quoted = false)
    (noLabel : s.inEdgeLabel = false) (other : c ≠ '"') :
    step k s c = { s with brackets := s.brackets.take c k.line, previous := some c } := by
  cases own : closerOf? c with
  | some closer => simp [step, Brackets.take, other, outside, noLabel, plain, own]
  | none => by_cases closes : isCloser c <;> simp [step, Brackets.take, other, outside, noLabel, plain, own, closes]

theorem step_inside {k : LineContext} {s : Cursor} (inside : s.quoted = true) (other : c ≠ '"') :
    step k s c = { s with previous := some c } := by
  simp [step, other, inside]

theorem pending_foldl_step {k : LineContext} (plain : k.flowchart = false) (cs : List Char) {s : Cursor}
    (noLabel : s.inEdgeLabel = false) : (cs.foldl (step k) s).brackets.pending =
      s.brackets.pending.bind (settle · (bracketsFrom s.quoted cs)) := by
  induction cs generalizing s with
  | nil =>
    rw [bracketsFrom_nil]
    exact (Option.bind_fun_some _).symm
  | cons c cs ih =>
    rw [List.foldl_cons]
    by_cases quote : c = '"'
    · rw [quote, step_quote, bracketsFrom_quote]
      exact ih noLabel
    · rw [bracketsFrom_cons quote]
      cases quoted : s.quoted with
      | false =>
        have later := ih (s := { s with brackets := s.brackets.take c k.line, previous := some c }) noLabel
        rw [step_outside plain quoted noLabel quote, later, Brackets.pending_take, Option.bind_assoc]
        simp only [settle_append, quoted, Bool.false_eq_true, if_false]
      | true =>
        have later := ih (s := { s with previous := some c }) noLabel
        rw [step_inside quoted quote, later]
        simp only [quoted, if_true, List.nil_append]

theorem pending_scanLine (b : Brackets) (n : Nat) (cs : List Char) :
    (scanLine false b n cs).pending = b.pending.bind (settle · (bracketsOf cs)) :=
  pending_foldl_step rfl cs (s := .start b) rfl

theorem pending_scanLines (lines : List (Nat × List Char)) :
    (scanLines false lines).pending = settle [] (lines.flatMap fun p => bracketsOf p.2) := by
  have scanned (b : Brackets) : (lines.foldl (fun b p => scanLine false b p.1 p.2) b).pending =
      b.pending.bind (settle · (lines.flatMap fun p => bracketsOf p.2)) := by
    induction lines generalizing b with
    | nil => exact (Option.bind_fun_some _).symm
    | cons p lines ih =>
      rw [List.foldl_cons, ih, pending_scanLine, Option.bind_assoc]
      simp only [List.flatMap_cons, settle_append]
  exact scanned .empty

/-- There is nothing to report just in case there is no stray and nothing waits. -/
theorem bracketFindings_eq_nil_iff {declared : Option Declared} (other : declared ≠ some .flowchart)
    (lines : List (Nat × List Char)) : bracketFindings declared lines = [] ↔
      Nested (lines.flatMap fun p => bracketsOf (scannable declared p.2)) := by
  have plain : decide (declared = some .flowchart) = false := decide_eq_false other
  have word := pending_scanLines (lines.map fun p => (p.1, scannable declared p.2))
  rw [List.flatMap_map] at word
  rw [nested_iff_settle, ← word]
  unfold bracketFindings Brackets.pending
  dsimp only
  rw [plain]
  generalize scanLines false (lines.map fun p => (p.1, scannable declared p.2)) = b
  by_cases clean : b.strays = [] <;> simp [clean]

/-! ### The whole text -/

/-- The brackets of a text, over all its lines that are neither blank nor comments: those that stand outside
of quotes in the part of the line that counts. -/
def bracketWord (text : String) : List Char :=
  (((Text.lines text.toList).map Text.trim).filter isStatementLine).flatMap fun line =>
    bracketsOf (scannable (Declared.ofText? text) line)

theorem bracketWord_eq (text : String) : bracketWord text =
    (statementLines text).flatMap fun p => bracketsOf (scannable (Declared.ofText? text) p.2) := by
  rw [bracketWord, ← Source.lines, ← Source.map_snd_statementLines, List.flatMap_map]

/-- A message about a bracket, one that closes nothing or one that is not closed. -/
def IsBracketMessage (message : String) : Prop :=
  ∃ c n, message = Finding.message (.unmatched c n) ∨ message = Finding.message (.unclosed c n)

theorem not_isBracketMessage_of_mem_declarationFindings {f : Finding} {text : String}
    (there : f ∈ declarationFindings text) : ¬ IsBracketMessage f.message := by
  have other : f.message = "Empty diagram code" ∨ f.message = "Unknown or invalid diagram type" := by
    obtain rfl | ⟨n, -, rfl⟩ := eq_of_mem_declarationFindings there
    · exact .inl rfl
    · exact .inr rfl
  rintro ⟨c, n, same | same⟩ <;> rw [same, Finding.message_eq_emptyDiagram_iff,
    Finding.message_eq_unknownType_iff] at other <;> simp at other

/-- No error is about a bracket just in case the scan of the brackets finds nothing. -/
theorem not_isBracketMessage_errors_iff (rules : Rules) (text : String) :
    (∀ message ∈ (validate rules text).errors, ¬ IsBracketMessage message) ↔
      bracketFindings (Declared.ofText? text) (statementLines text) = [] := by
  have errors : (validate rules text).errors = (declarationFindings text).map Finding.message ++
      (bracketFindings (Declared.ofText? text) (statementLines text)).map Finding.message := by
    rw [errors_validate, findings_scan, List.map_append]
  rw [errors, List.forall_mem_append, List.forall_mem_map, List.forall_mem_map,
    List.eq_nil_iff_forall_not_mem]
  constructor
  · intro none f there
    refine none.2 f there ?_
    rcases bracketFindings_line _ _ f there with ⟨c, n, rfl⟩ | ⟨c, n, rfl⟩
    · exact ⟨c, n, .inl rfl⟩
    · exact ⟨c, n, .inr rfl⟩
  · exact fun none => ⟨fun f there => not_isBracketMessage_of_mem_declarationFindings there,
      fun f there => absurd there (none f)⟩

/-- A text that is no flowchart is reported to be without bracket errors exactly when its brackets are
nested. -/
theorem no_bracket_errors_iff_nested (rules : Rules) {text : String}
    (other : Declared.ofText? text ≠ some .flowchart) :
    (∀ message ∈ (validate rules text).errors, ¬ IsBracketMessage message) ↔ Nested (bracketWord text) := by
  rw [not_isBracketMessage_errors_iff, bracketFindings_eq_nil_iff other, bracketWord_eq]

/-- Of an unknown type, with a comment, quotes that are open at the end of a line, and a pair of brackets
over three lines. -/
def scattered : String := "venn\n%% (\nA\x7b \"](\" [x]\n \n(B)\"\x7d\n\x7d"

theorem no_bracket_errors_iff_nested_scattered : Declared.ofText? scattered ≠ some .flowchart ∧
    (∀ message ∈ (validate .usual scattered).errors, ¬ IsBracketMessage message) ∧
    bracketWord scattered = ['\x7b', '[', ']', '(', ')', '\x7d'] := by
  have other : Declared.ofText? scattered ≠ some .flowchart := by decide +kernel
  have nested : Nested (bracketWord scattered) := by decide +kernel
  exact ⟨other, (no_bracket_errors_iff_nested .usual other).2 nested, by decide +kernel⟩

/-- In a sequence diagram brackets count in front of a colon only. -/
example : bracketWord "sequenceDiagram\nA->>B: (\nC(\"(\")->>D" = ['(', ')'] := by decide +kernel

end DiagramText.Validation
