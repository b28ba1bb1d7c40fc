import DiagramText.Proofs.Validation.Findings
import DiagramText.Proofs.Validation.Lines

/-! Mending. The closing brackets that a text is told to lack are just those that it lacks: put on a line
of their own at its end, the last one first, they close all that is open, whatever the type of the text,
and everything else that was found is found again as it was. -/
namespace DiagramText.Validation

open Cursor (step)

variable {c : Char} {cs : List Char} {t : Option Declared} {rules : Rules} {text : String}

/-! ### Lines of closing brackets -/

theorem not_isBlank_of_isCloser (closes : isCloser c) : Text.isBlank c = false := by
  simp only [isCloser, Bool.or_eq_true, beq_iff_eq] at closes
  rcases closes with (rfl | rfl) | rfl <;> rfl

/-- What is no closing bracket is not among closing brackets. -/
theorem not_mem_closers (closers : ∀ c ∈ cs, isCloser c) {d : Char} (other : isCloser d = false) :
    d ∉ cs := by
  intro among
  rw [closers d among] at other
  cases other

theorem trim_closers (closers : ∀ c ∈ cs, isCloser c) : Text.trim cs = cs :=
  Text.trim_eq_self (fun c first => not_isBlank_of_isCloser (closers c (List.mem_of_mem_head? first)))
    fun c last => not_isBlank_of_isCloser (closers c (List.mem_of_getLast? last))

theorem isStatementLine_closers (closers : ∀ c ∈ cs, isCloser c) (some : cs ≠ []) : isStatementLine cs := by
  refine Source.isStatementLine_iff.2 ⟨some, fun comment => ?_⟩
  exact not_mem_closers closers rfl (comment.subset List.mem_cons_self)

/-- All of such a line counts, whatever the type of the text is. -/
theorem scannable_closers (closers : ∀ c ∈ cs, isCloser c) (t : Option Declared) : scannable t cs = cs := by
  have noLine : ¬ (Text.occursIn "--".toList cs || Text.occursIn "..".toList cs) = true := by
    rw [Bool.or_eq_true, Text.occursIn_iff, Text.occursIn_iff]
    rintro (dashes | dots)
    · exact not_mem_closers closers rfl (dashes.subset List.mem_cons_self)
    · exact not_mem_closers closers rfl (dots.subset List.mem_cons_self)
  have noColon : ((Text.cut? ':' cs).map (·.1)).getD cs = cs := by
    rw [Text.cut?_eq_none (not_mem_closers closers rfl)]
    rfl
  unfold scannable
  split
  · exact if_neg noLine
  · exact noColon
  · exact noColon
  · rfl

/-- A closing bracket closes outside of quotes and edge labels, in flowcharts too. -/
theorem step_closer {k : LineContext} {s : Cursor} (outside : s.quoted = false) (noLabel : s.inEdgeLabel = false)
    (closes : isCloser c) :
    step k s c = { s with brackets := s.brackets.close c k.line, previous := some c } := by
  have own := closes
  simp only [isCloser, Bool.or_eq_true, beq_iff_eq] at own
  rcases own with (rfl | rfl) | rfl <;> simp [step, outside, noLabel, closerOf?, closes]

/-- What waits to be closed, the innermost first, closes everything. -/
theorem scanLine_openings (f : Bool) {b : Brackets} (n : Nat) (closers : ∀ o ∈ b.openings, isCloser o.closer) :
    scanLine f b n (b.openings.map (·.closer)) = { b with openings := [] } := by
  have scanned (k : LineContext) (os : List Opening) (closers : ∀ o ∈ os, isCloser o.closer) {s : Cursor}
      (waiting : s.brackets.openings = os) (outside : s.quoted = false) (noLabel : s.inEdgeLabel = false) :
      ((os.map (·.closer)).foldl (step k) s).brackets = { s.brackets with openings := [] } := by
    induction os generalizing s with
    | nil => exact congrArg (Brackets.mk · s.brackets.strays) waiting
    | cons o os ih =>
      rw [List.forall_mem_cons] at closers
      have closed : s.brackets.close o.closer k.line = { s.brackets with openings := os } := by
        rw [Brackets.close, waiting]
        exact if_pos rfl
      rw [List.map_cons, List.foldl_cons, step_closer outside noLabel closers.1, closed]
      exact ih closers.2 rfl outside noLabel
  exact scanned _ b.openings closers (s := .start b) rfl rfl rfl

/-! ### The brackets of a text -/

/-- The brackets when all of a text has been scanned. -/
def bracketsAtEnd (text : String) : Brackets :=
  scanLines (Declared.ofText? text = some .flowchart)
    ((statementLines text).map fun p => (p.1, scannable (Declared.ofText? text) p.2))

theorem closers_bracketsAtEnd (text : String) : ∀ o ∈ (bracketsAtEnd text).openings, isCloser o.closer :=
  fun o among => ((sited_scanLines _ _).openings o among).1

/-- The strays are found in the order of the text, and then what is open, the outermost first. -/
theorem findings_eq_bracketsAtEnd (rules : Rules) (text : String) : (scan rules text).findings =
    declarationFindings text ++ ((bracketsAtEnd text).strays.map fun s => .unmatched s.found s.line) ++
      (bracketsAtEnd text).openings.reverse.map fun o => .unclosed o.closer o.line := by
  rw [findings_scan, List.append_assoc]
  rfl

/-- The closing bracket that a finding says is missing. -/
def Finding.missing? : Finding → Option Char
  | .unclosed expected _ => some expected
  | _ => none

/-- The closing brackets that a text is told to lack, in the order told. -/
def missing (rules : Rules) (text : String) : List Char :=
  (scan rules text).findings.filterMap Finding.missing?

/-- What is found about the declaration and the strays has nothing missing. -/
theorem missing?_eq_none (text : String) {f : Finding} (there : f ∈ declarationFindings text ++
    ((bracketsAtEnd text).strays.map fun s => Finding.unmatched s.found s.line)) : f.missing? = none := by
  rcases List.mem_append.1 there with declaration | stray
  · obtain rfl | ⟨n, -, rfl⟩ := eq_of_mem_declarationFindings declaration <;> rfl
  · obtain ⟨s, -, rfl⟩ := List.mem_map.1 stray
    rfl

theorem missing_eq (rules : Rules) (text : String) :
    missing rules text = (bracketsAtEnd text).openings.reverse.map (·.closer) := by
  have none := List.filterMap_eq_nil_iff.2 fun f => missing?_eq_none text (f := f)
  rw [missing, findings_eq_bracketsAtEnd, List.filterMap_append, none, List.nil_append, List.filterMap_map,
    ← List.filterMap_eq_map]
  rfl

/-- Everything but what is missing. -/
theorem filter_missing?_findings (rules : Rules) (text : String) :
    ((scan rules text).findings.filter fun f => f.missing?.isNone) =
      declarationFindings text ++ (bracketsAtEnd text).strays.map fun s => .unmatched s.found s.line := by
  have unclosed : ((bracketsAtEnd text).openings.reverse.map fun o => Finding.unclosed o.closer o.line).filter
      (fun f => f.missing?.isNone) = [] := by
    rw [List.filter_eq_nil_iff, List.forall_mem_map]
    exact fun o _ => Bool.false_ne_true
  rw [findings_eq_bracketsAtEnd, List.filter_append, unclosed, List.append_nil, List.filter_eq_self]
  intro f there
  rw [missing?_eq_none text there]
  rfl

/-! ### The mended text -/

/-- A text with what it lacks on a line of its own at the end, the last that it is told of first. -/
def mended (rules : Rules) (text : String) : String :=
  text ++ "\n" ++ String.ofList (missing rules text).reverse

theorem missing_reverse (rules : Rules) (text : String) :
    (missing rules text).reverse = (bracketsAtEnd text).openings.map (·.closer) := by
  rw [missing_eq, ← List.map_reverse, List.reverse_reverse]

theorem statementLines_mended (rules : Rules) (text : String) : ∃ n,
    statementLines (mended rules text) = statementLines text ++
      [(n, (bracketsAtEnd text).openings.map (·.closer))].filter fun p => p.2 != [] := by
  have closers : ∀ c ∈ (bracketsAtEnd text).openings.map (·.closer), isCloser c :=
    List.forall_mem_map.2 (closers_bracketsAtEnd text)
  obtain ⟨n, lines⟩ := statementLines_append_line text (not_mem_closers closers (d := '\n') rfl)
  refine ⟨n, ?_⟩
  rw [mended, missing_reverse, lines, trim_closers closers]
  refine congrArg (statementLines text ++ ·) (List.filter_congr fun p there => ?_)
  obtain rfl := List.mem_singleton.1 there
  by_cases none : (bracketsAtEnd text).openings.map (·.closer) = []
  · rw [none]
    rfl
  · rw [isStatementLine_closers closers none]
    simpa using none

/-- The line more is no declaration. -/
theorem head?_statementLines_mended (rules : Rules) (text : String) :
    (statementLines (mended rules text)).head? = (statementLines text).head? := by
  obtain ⟨n, lines⟩ := statementLines_mended rules text
  cases first : statementLines text with
  | nil =>
    have none : (bracketsAtEnd text).openings = [] := by
      rw [bracketsAtEnd, first]
      rfl
    rw [lines, first, none]
    rfl
  | cons p body => rw [lines, first]; rfl

theorem ofText?_mended (rules : Rules) (text : String) :
    Declared.ofText? (mended rules text) = Declared.ofText? text := by
  rw [Declared.ofText?, head?_statementLines_mended, Declared.ofText?]

/-- In the mended text everything that was open is closed, and there is no stray more. -/
theorem bracketsAtEnd_mended (rules : Rules) (text : String) :
    bracketsAtEnd (mended rules text) = { bracketsAtEnd text with openings := [] } := by
  obtain ⟨n, lines⟩ := statementLines_mended rules text
  by_cases closed : (bracketsAtEnd text).openings = []
  · have same : statementLines (mended rules text) = statementLines text := by
      rw [lines, closed]
      exact List.append_nil _
    rw [← closed, bracketsAtEnd, ofText?_mended, same]
    rfl
  · have some : (bracketsAtEnd text).openings.map (·.closer) ≠ [] := by simpa using closed
    have closers : ∀ c ∈ (bracketsAtEnd text).openings.map (·.closer), isCloser c :=
      List.forall_mem_map.2 (closers_bracketsAtEnd text)
    rw [List.filter_cons_of_pos (by simpa using some), List.filter_nil] at lines
    rw [← scanLine_openings (Declared.ofText? text = .some .flowchart) n (closers_bracketsAtEnd text), bracketsAtEnd,
      ofText?_mended, lines, List.map_append, List.map_singleton, scannable_closers closers, scanLines,
      List.foldl_append, List.foldl_cons, List.foldl_nil]
    rfl

theorem declarationFindings_mended (rules : Rules) (text : String) :
    declarationFindings (mended rules text) = declarationFindings text := by
  rw [declarationFindings, head?_statementLines_mended, declarationFindings]

theorem findings_mended (rules : Rules) (text : String) : (scan rules (mended rules text)).findings =
    (scan rules text).findings.filter fun f => f.missing?.isNone := by
  rw [filter_missing?_findings, findings_eq_bracketsAtEnd, declarationFindings_mended, bracketsAtEnd_mended]
  exact List.append_nil _

/-- In the mended text nothing is missing, and all else that was reported is reported again: the same
messages in the same order, and under the same lines. -/
theorem validate_mended (rules : Rules) (text : String) :
    let others := (scan rules text).findings.filter fun f => f.missing?.isNone
    (validate rules (mended rules text)).errors = others.map Finding.message ∧
      (validate rules (mended rules text)).lineErrors = byLine others ∧
      missing rules (mended rules text) = [] := by
  intro others
  have found : (scan rules (mended rules text)).findings = others := findings_mended rules text
  refine ⟨?_, ?_, ?_⟩
  · rw [errors_validate, found]
  · rw [lineErrors_validate, found]
  · rw [missing_eq, bracketsAtEnd_mended]
    rfl

/-- A flowchart with an edge label and a quote that are left open, three brackets that are, and one that
closes nothing. -/
example : let text := "graph TD\nA[x\nB>y\nC)-->|(\nD\x7b\"z"
    missing .usual text = [']', ']', '\x7d'] ∧
      (validate .usual (mended .usual text)).errors = ["Unmatched closing bracket ')' at line 4"] := by
  decide +kernel

end DiagramText.Validation
