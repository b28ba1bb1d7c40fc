import DiagramText.Proofs.Source
import DiagramText.Proofs.Validation.Scanning
import DiagramText.Validation.Report

/-! Scanning the lines of a source text, one after the other. Lines are level when the brackets are
afterwards as they were before; so are lines between a line that opens a brace and the brace that
closes it. Source whose lines are level has no errors. -/
namespace DiagramText.Validation

variable {t : Option Declared} {b : Brackets} {n : Nat} {line : String} {lines more : List String}

/-! ### One line -/

/-- What a line with its number does to the brackets. -/
def takeLine (declared : Option Declared) (n : Nat) (b : Brackets) (line : String) : Brackets :=
  let cs := Text.trim line.toList
  if isStatementLine cs then
    scanLine (declared = some .flowchart) b n (scannable declared cs)
  else b

theorem takeLine_indented (l : Layout) (depth : Nat) (line : String) :
    takeLine t n b (l.indented depth line) = takeLine t n b line := by
  rw [takeLine, takeLine, Source.trim_indented]

/-- A line that leaves the brackets as they were, whatever is open. -/
def IsBalanced (declared : Option Declared) (line : String) : Prop :=
  ∀ n b, takeLine declared n b line = b

theorem isBalanced_iff : IsBalanced t line ↔ (isStatementLine (Text.trim line.toList) →
    Balanced (t = some .flowchart) (scannable t (Text.trim line.toList))) := by
  unfold IsBalanced takeLine Balanced
  by_cases statement : isStatementLine (Text.trim line.toList) = true
  · simp only [statement, if_true, forall_const]
    exact forall_comm
  · simp [statement]

instance : Decidable (IsBalanced t line) := decidable_of_iff' _ isBalanced_iff

/-- Where all of a line counts, it is balanced if its characters are. -/
theorem isBalanced_of_whole (whole : ∀ cs, scannable t cs = cs)
    (balanced : Balanced (t = some .flowchart) line.toList) : IsBalanced t line := by
  refine isBalanced_iff.2 fun _ b n => ?_
  rw [whole, scanLine_trim]
  exact balanced b n

/-- In sequence and state diagrams text behind a colon does not count. -/
def CutsAtColon (declared : Option Declared) : Prop := declared = some .sequence ∨ declared = some .states

theorem CutsAtColon.scannable (cuts : CutsAtColon t) (cs : List Char) :
    scannable t cs = cs.takeWhile (· != ':') := by
  rcases cuts with rfl | rfl <;> exact Text.getD_fst_cut? ':' cs

theorem CutsAtColon.scanLine_trim (cuts : CutsAtColon t) (cs : List Char) :
    scanLine (t = some .flowchart) b n (Validation.scannable t (Text.trim cs)) =
      scanLine false b n (cs.takeWhile (· != ':')) := by
  have solid (c : Char) (blank : Text.isBlank c) : c != ':' := by
    rw [bne_iff_ne]
    rintro rfl
    exact absurd blank (by decide)
  have other : decide (t = some .flowchart) = false := by rcases cuts with rfl | rfl <;> rfl
  rw [cuts.scannable, scanLine_takeWhile_trim solid, other]

/-- A line is cut at its first colon. -/
theorem takeWhile_cut {front : List Char} (free : ':' ∉ front) (rest : List Char) :
    (front ++ rest).takeWhile (· != ':') = front ++ rest.takeWhile (· != ':') := by
  refine List.takeWhile_append_of_pos fun c inside => ?_
  rw [bne_iff_ne]
  rintro rfl
  exact free inside

/-- There a line is balanced if it starts silently and what follows is balanced up to a colon. -/
theorem isBalanced_of_front (cuts : CutsAtColon t) {front rest : List Char}
    (split : line.toList = front ++ rest) (free : ':' ∉ front) (silent : Silent false front)
    (balanced : Balanced false (rest.takeWhile (· != ':'))) : IsBalanced t line := by
  refine isBalanced_iff.2 fun _ b n => ?_
  rw [cuts.scanLine_trim, split, takeWhile_cut free]
  exact silent.append_balanced balanced b n

/-- A line that opens a brace. -/
def Opens (declared : Option Declared) (line : String) : Prop :=
  ∀ n b, takeLine declared n b line = b.push '\x7d' n

theorem isStatementLine_of_first {c : Char} {cs : List Char} (solid : Text.isBlank c = false)
    (noMark : c ≠ '%') : isStatementLine (Text.trim (c :: cs)) := by
  obtain ⟨ds, trim⟩ := Text.trim_cons solid cs
  have other : ¬ Text.startsWith ['%', '%'] (c :: ds) := by
    rw [Text.startsWith_iff]
    exact fun comment => noMark (List.cons_prefix_cons.1 comment).1.symm
  rw [trim]
  simpa [isStatementLine] using other

/-- A brace behind silent text is opened where all of the line counts. -/
theorem opens_of_silent {c : Char} {cs : List Char} (split : line.toList = c :: cs ++ ['\x7b'])
    (solid : Text.isBlank c = false) (noMark : c ≠ '%') (silent : Silent false (c :: cs))
    (whole : ∀ b n, scanLine (t = some .flowchart) b n (scannable t (Text.trim line.toList)) =
      scanLine false b n line.toList) : Opens t line := by
  intro n b
  have statement : isStatementLine (Text.trim line.toList) := by
    rw [split]
    exact isStatementLine_of_first solid noMark
  rw [takeLine, if_pos statement, whole, split, scanLine_silent_append silent]
  rfl

theorem scannable_brace (t : Option Declared) : scannable t ['\x7d'] = ['\x7d'] := by
  cases t with
  | none => rfl
  | some t => cases t <;> rfl

theorem takeLine_brace (b : Brackets) (m n : Nat) : takeLine t n (b.push '\x7d' m) "\x7d" = b := by
  have tight : Text.trim "\x7d".toList = ['\x7d'] := rfl
  rw [takeLine, tight, scannable_brace]
  rfl

theorem IsBalanced.indented (balanced : IsBalanced t line) (l : Layout) (depth : Nat) :
    IsBalanced t (l.indented depth line) := fun n b =>
  (takeLine_indented l depth line).trans (balanced n b)

theorem Opens.indented (opens : Opens t line) (l : Layout) (depth : Nat) :
    Opens t (l.indented depth line) := fun n b => (takeLine_indented l depth line).trans (opens n b)

/-! ### Lines one after the other -/

def takeLines (declared : Option Declared) : Nat → Brackets → List String → Brackets
  | _, b, [] => b
  | n, b, line :: lines => takeLines declared (n + 1) (takeLine declared n b line) lines

theorem takeLines_append (n : Nat) (b : Brackets) (lines more : List String) :
    takeLines t n b (lines ++ more) = takeLines t (n + lines.length) (takeLines t n b lines) more := by
  induction lines generalizing n b with
  | nil => rfl
  | cons line lines ih =>
    rw [List.cons_append, takeLines, ih, takeLines, List.length_cons, Nat.add_comm lines.length, Nat.add_assoc]

/-- Lines that leave the brackets as they were, whatever is open. -/
structure Level (declared : Option Declared) (lines : List String) : Prop where
  unbroken : ∀ line ∈ lines, '\n' ∉ line.toList
  keeps : ∀ n b, takeLines declared n b lines = b

theorem level_nil : Level t [] := ⟨List.forall_mem_nil _, fun _ _ => rfl⟩

theorem Level.append (first : Level t lines) (second : Level t more) : Level t (lines ++ more) where
  unbroken := List.forall_mem_append.2 ⟨first.unbroken, second.unbroken⟩
  keeps n b := by rw [takeLines_append, first.keeps, second.keeps]

theorem level_of_balanced (each : ∀ line ∈ lines, '\n' ∉ line.toList ∧ IsBalanced t line) :
    Level t lines where
  unbroken line there := (each line there).1
  keeps n b := by
    induction lines generalizing n with
    | nil => rfl
    | cons line lines ih =>
      rw [List.forall_mem_cons] at each
      rw [takeLines, each.1.2, ih each.2]

theorem level_flatMap {α : Type} {as : List α} {f : α → List String} (each : ∀ a ∈ as, Level t (f a)) :
    Level t (as.flatMap f) := by
  induction as with
  | nil => exact level_nil
  | cons a as ih =>
    rw [List.forall_mem_cons] at each
    rw [List.flatMap_cons]
    exact each.1.append (ih each.2)

/-- Indented lines that are balanced each by itself. -/
theorem level_indented {α : Type} {as : List α} {indented text : α → String} (l : Layout)
    (same : ∀ a, ∃ depth, indented a = l.indented depth (text a))
    (each : ∀ a ∈ as, '\n' ∉ (text a).toList ∧ IsBalanced t (text a)) : Level t (as.map indented) := by
  refine level_of_balanced (List.forall_mem_map.2 fun a there => ?_)
  obtain ⟨depth, line⟩ := same a
  obtain ⟨free, balanced⟩ := each a there
  rw [line]
  exact ⟨Source.unbroken_indented free l depth, balanced.indented l depth⟩

/-- A block between braces. -/
theorem level_block {head : String} (free : '\n' ∉ head.toList) (opens : Opens t head)
    (inner : Level t lines) (l : Layout) (depth : Nat) :
    Level t ([head] ++ lines ++ [l.indented depth "\x7d"]) where
  unbroken := by
    rw [List.forall_mem_append, List.forall_mem_append, List.forall_mem_singleton, List.forall_mem_singleton]
    exact ⟨⟨free, inner.unbroken⟩, Source.unbroken_indented (by decide) l depth⟩
  keeps n b := by
    rw [takeLines_append, takeLines_append, inner.keeps, takeLines, takeLines, takeLines, takeLines, opens,
      takeLine_indented, takeLine_brace]

/-! ### Source text -/

/-- The lines of a text that are no statements make no difference to the scan. -/
theorem scan_statementLines (n : Nat) (b : Brackets) (lines : List String) :
    ((((List.range' n lines.length).zip (lines.map fun l => Text.trim l.toList)).filter
        fun p => isStatementLine p.2).map fun p => (p.1, scannable t p.2)).foldl
          (fun b p => scanLine (t = some .flowchart) b p.1 p.2) b =
      takeLines t n b lines := by
  induction lines generalizing n b with
  | nil => rfl
  | cons line lines ih =>
    rw [List.length_cons, List.range'_succ, List.map_cons, List.zip_cons_cons, List.filter_cons, takeLines,
      takeLine]
    dsimp only
    split
    · rw [List.map_cons, List.foldl_cons, ih]
    · rw [ih]

/-- The statement lines are among the pieces between line breaks; a break at the very end makes no
difference, for what follows it is blank. -/
theorem statementLines_eq_pieces (text : String) : statementLines text =
    ((List.range' 1 (Text.pieces '\n' text.toList).length).zip
      ((Text.pieces '\n' text.toList).map Text.trim)).filter fun p => isStatementLine p.2 := by
  rw [statementLines, Text.lines]
  rcases Text.map_trim_linesOfPieces (Text.pieces '\n' text.toList) with same | same
  · have length := congrArg List.length same
    simp only [List.length_map] at length
    rw [same, List.length_map, ← length]
  · have length := congrArg List.length same
    simp only [List.length_map, List.length_append, List.length_singleton] at length
    rw [same, List.length_map, length, List.range'_concat, List.zip_append (by simp), List.filter_append]
    simp [isStatementLine]

theorem statementLines_joinLines (some : lines ≠ []) (unbroken : ∀ l ∈ lines, '\n' ∉ l.toList) :
    statementLines (Text.joinLines lines) = ((List.range' 1 lines.length).zip
      (lines.map fun l => Text.trim l.toList)).filter fun p => isStatementLine p.2 := by
  rw [statementLines_eq_pieces, Text.pieces_joinLines some unbroken, List.length_map, List.map_map]
  rfl

/-- A text below another leaves the statement lines of that as they are. -/
theorem statementLines_below (above below : String) : statementLines (above ++ "\n" ++ below) = statementLines above ++
    ((List.range' (1 + (Text.pieces '\n' above.toList).length) (Text.pieces '\n' below.toList).length).zip
      ((Text.pieces '\n' below.toList).map Text.trim)).filter fun p => isStatementLine p.2 := by
  have broken : (above ++ "\n" ++ below).toList = above.toList ++ '\n' :: below.toList := by simp
  rw [statementLines_eq_pieces, statementLines_eq_pieces, broken, Text.pieces_append, List.length_append,
    List.map_append, ← List.range'_append_1, List.zip_append (by simp), List.filter_append]

/-- A line more is a statement line more, unless it is blank or a comment. -/
theorem statementLines_append_line (text : String) {line : List Char} (unbroken : '\n' ∉ line) :
    ∃ n, statementLines (text ++ "\n" ++ String.ofList line) =
      statementLines text ++ [(n, Text.trim line)].filter fun p => isStatementLine p.2 := by
  refine ⟨1 + (Text.pieces '\n' text.toList).length, ?_⟩
  rw [statementLines_below, String.toList_ofList, Text.pieces_eq_singleton unbroken]
  rfl

/-- The title is a comment. -/
theorem isBalanced_titleLines (l : Layout) (m : Metadata) : ∀ line ∈ l.titleLines m, IsBalanced t line := by
  have comment {title : List Char} (some : title ≠ []) (tight : Text.trim title = title) :
      isStatementLine (Text.trim ('%' :: ("% title: ".toList ++ title))) = false := by
    rw [Text.trim_cons_append '%' "% title: ".toList (by decide) some tight]
    rfl
  unfold Layout.titleLines
  cases m.title with
  | none => exact List.forall_mem_nil _
  | some title =>
    dsimp only
    split
    · next shown =>
      rw [List.forall_mem_singleton]
      refine IsBalanced.indented (isBalanced_iff.2 fun statement => absurd statement ?_) l 1
      have filled : (Text.trimmed (Text.oneLine title)).toList ≠ [] := by
        intro none
        rw [Text.toList_trimmed, ← Text.isBlankText_iff, Text.isBlankText_oneLine] at none
        simp [none] at shown
      rw [String.toList_append]
      exact Bool.not_eq_true _ ▸ comment filled (by simp)
    · exact List.forall_mem_nil _

/-- Source of one dialect whose lines are level has nothing to be found fault with. -/
theorem findings_source (rules : Rules) (l : Layout) (m : Metadata) {header : String} {declared : Declared}
    {body : List String} (isHeader : Source.IsHeader header)
    (known : Declared.ofLine? header.toList = some declared) (balanced : IsBalanced (some declared) header)
    (level : Level (some declared) body) : (scan rules (l.source header m body)).findings = [] := by
  have tight : Text.trim header.toList = header.toList := Text.trim_of_trimmed isHeader.tight
  have statement : isStatementLine header.toList = true := by
    have notBlank := isHeader.statement.notBlank
    have noComment := isHeader.statement.noComment
    rw [tight] at notBlank noComment
    simp only [isStatementLine, Bool.and_eq_true, bne_iff_ne, Bool.not_eq_true']
    refine ⟨notBlank, ?_⟩
    rw [← Bool.not_eq_true, Text.startsWith_iff]
    exact noComment
  have whole : Level (some declared) (header :: (l.titleLines m ++ body)) :=
    (level_of_balanced (List.forall_mem_singleton.2 ⟨isHeader.statement.unbroken, balanced⟩)).append
      ((level_of_balanced fun line there =>
        ⟨Source.not_mem_titleLines l m line there, isBalanced_titleLines l m line there⟩).append level)
  have lines := statementLines_joinLines (List.cons_ne_nil _ _) whole.unbroken
  have scanned := whole.keeps 1 .empty
  rw [← scan_statementLines, ← lines] at scanned
  obtain ⟨rest, first⟩ : ∃ rest, statementLines (Text.joinLines (header :: (l.titleLines m ++ body))) =
      (1, header.toList) :: rest := by
    rw [lines, List.length_cons, List.range'_succ, List.map_cons, List.zip_cons_cons, tight,
      List.filter_cons_of_pos (by exact statement)]
    exact ⟨_, rfl⟩
  rw [first] at scanned
  have clean : bracketFindings (some declared) ((1, header.toList) :: rest) = [] := by
    unfold bracketFindings
    dsimp only
    rw [show scanLines _ _ = Brackets.empty from scanned]
    rfl
  rw [scan, Layout.source, List.cons_append, first]
  simp [known, clean]

end DiagramText.Validation
