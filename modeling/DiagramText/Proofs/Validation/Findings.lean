import DiagramText.Proofs.Validation.Declaration
import DiagramText.Proofs.Validation.Scanning

/-! What is found in a text, and the views of it. Findings are about the declaration first and then about
the brackets, and all but that of an empty text have a statement line as their place. The errors, the
errors by line and the hints are made of them one by one, so that nothing is lost between them. -/
namespace DiagramText.Validation

open Cursor (step)

variable {rules : Rules} {text : String} {numbers : List Nat} {b : Brackets} {c : Char} {f : Finding}

/-! ### The findings of a text -/

/-- What is found about the declaration of a text. -/
def declarationFindings (text : String) : List Finding :=
  match (statementLines text).head? with
  | none => [.emptyDiagram]
  | some (n, header) => if (Declared.ofLine? header).isNone then [.unknownType n] else []

theorem eq_of_mem_declarationFindings (there : f ∈ declarationFindings text) :
    f = .emptyDiagram ∨ ∃ n ∈ (statementLines text).map Prod.fst, f = .unknownType n := by
  unfold declarationFindings at there
  split at there
  · exact .inl (List.mem_singleton.1 there)
  · next n header first =>
    split at there
    · exact .inr ⟨n, List.mem_map_of_mem (List.mem_of_mem_head? first), List.mem_singleton.1 there⟩
    · cases there

/-- Rules do not matter for what is found. -/
theorem findings_scan (rules : Rules) (text : String) : (scan rules text).findings =
    declarationFindings text ++ bracketFindings (Declared.ofText? text) (statementLines text) := by
  unfold scan declarationFindings Declared.ofText?
  cases statementLines text <;> rfl

theorem declared_scan (rules : Rules) (text : String) :
    (scan rules text).declared = Declared.ofText? text := by
  unfold scan Declared.ofText?
  cases statementLines text <;> rfl

theorem errors_validate (rules : Rules) (text : String) :
    (validate rules text).errors = (scan rules text).findings.map Finding.message := rfl

theorem lineErrors_validate (rules : Rules) (text : String) :
    (validate rules text).lineErrors = byLine (scan rules text).findings := rfl

/-! ### Where brackets come up -/

/-- What is open waits for a closing bracket, and all that is open or stray came up on one of the lines. -/
structure Brackets.Sited (numbers : List Nat) (b : Brackets) : Prop where
  openings : ∀ o ∈ b.openings, isCloser o.closer ∧ o.line ∈ numbers
  strays : ∀ s ∈ b.strays, s.line ∈ numbers

theorem Brackets.sited_empty : Brackets.empty.Sited numbers :=
  ⟨List.forall_mem_nil _, List.forall_mem_nil _⟩

theorem Brackets.Sited.push {closer : Char} {n : Nat} (sited : b.Sited numbers) (closes : isCloser closer)
    (own : n ∈ numbers) : (b.push closer n).Sited numbers :=
  ⟨List.forall_mem_cons.2 ⟨⟨closes, own⟩, sited.openings⟩, sited.strays⟩

theorem Brackets.Sited.close {n : Nat} (sited : b.Sited numbers) (c : Char) (own : n ∈ numbers) :
    (b.close c n).Sited numbers := by
  have strays : ∀ s ∈ b.strays ++ [⟨c, n⟩], s.line ∈ numbers :=
    List.forall_mem_append.2 ⟨sited.strays, List.forall_mem_singleton.2 own⟩
  unfold Brackets.close
  split
  · next o rest split =>
    split
    · exact ⟨(List.forall_mem_cons.1 (split ▸ sited.openings)).2, sited.strays⟩
    · exact ⟨sited.openings, strays⟩
  · exact ⟨sited.openings, strays⟩

theorem isCloser_of_closerOf? {closer : Char} (own : closerOf? c = some closer) : isCloser closer := by
  unfold closerOf? at own
  split at own <;> cases own <;> rfl

theorem isCloser_of_moveOf {flowchart quoted inEdgeLabel atDepth behindId : Bool} {closer : Char}
    (opens : moveOf flowchart quoted inEdgeLabel atDepth behindId c = .opens closer) : isCloser closer := by
  unfold moveOf at opens
  cases own : closerOf? c with
  | some closer' =>
    rw [own] at opens
    dsimp only at opens
    repeat' split at opens
    all_goals cases opens
    exact isCloser_of_closerOf? own
  | none =>
    rw [own] at opens
    dsimp only at opens
    repeat' split at opens
    all_goals cases opens
    rfl

theorem sited_step {k : LineContext} {s : Cursor} (sited : s.brackets.Sited numbers) (own : k.line ∈ numbers)
    (c : Char) : (step k s c).brackets.Sited numbers := by
  rw [step_eq]
  cases move : moveOf k.flowchart s.quoted s.inEdgeLabel (s.atDepth k) s.behindId c with
  | pass | quote | bar => exact sited
  | opens closer => exact sited.push (isCloser_of_moveOf move) own
  | closes bracket => exact sited.close bracket own

theorem sited_scanLine {flowchart : Bool} {n : Nat} (sited : b.Sited numbers) (own : n ∈ numbers)
    (cs : List Char) : (scanLine flowchart b n cs).Sited numbers := by
  have scanned (cs : List Char) {s : Cursor} (sited : s.brackets.Sited numbers) :
      (cs.foldl (step ⟨flowchart, n, b.openings.length⟩) s).brackets.Sited numbers := by
    induction cs generalizing s with
    | nil => exact sited
    | cons c cs ih => exact ih (sited_step sited own c)
  exact scanned cs (s := .start b) sited

theorem sited_scanLines (flowchart : Bool) (lines : List (Nat × List Char)) :
    (scanLines flowchart lines).Sited (lines.map Prod.fst) := by
  have scanned (more : List (Nat × List Char)) {b : Brackets} (sited : b.Sited (lines.map Prod.fst))
      (among : ∀ p ∈ more, p.1 ∈ lines.map Prod.fst) :
      (more.foldl (fun b p => scanLine flowchart b p.1 p.2) b).Sited (lines.map Prod.fst) := by
    induction more generalizing b with
    | nil => exact sited
    | cons p more ih =>
      rw [List.forall_mem_cons] at among
      exact ih (sited_scanLine sited among.1 p.2) among.2
  exact scanned lines Brackets.sited_empty fun p there => List.mem_map_of_mem there

/-- Every finding but that of an empty text is about a statement line. -/
theorem exists_line_of_mem_findings (there : f ∈ (scan rules text).findings) :
    f = .emptyDiagram ∨ ∃ n ∈ (statementLines text).map Prod.fst, f.line? = some n := by
  rw [findings_scan, List.mem_append] at there
  rcases there with declaration | bracket
  · refine (eq_of_mem_declarationFindings declaration).imp_right ?_
    rintro ⟨n, among, rfl⟩
    exact ⟨n, among, rfl⟩
  · have sited := sited_scanLines (Declared.ofText? text = some .flowchart)
      ((statementLines text).map fun p => (p.1, scannable (Declared.ofText? text) p.2))
    rw [List.map_map] at sited
    unfold bracketFindings at bracket
    rcases List.mem_append.1 bracket with stray | opening
    · obtain ⟨s, among, rfl⟩ := List.mem_map.1 stray
      exact .inr ⟨s.line, sited.strays s among, rfl⟩
    · obtain ⟨o, among, rfl⟩ := List.mem_map.1 opening
      exact .inr ⟨o.line, (sited.openings o (List.mem_reverse.1 among)).2, rfl⟩

/-- The numbers of the statement lines are their places among the lines, counted from 1. -/
theorem exists_statement_of_mem {n : Nat} (there : n ∈ (statementLines text).map Prod.fst) :
    ∃ i line, n = i + 1 ∧ (Text.lines text.toList)[i]? = some line ∧ Source.IsStatement line := by
  obtain ⟨⟨m, trimmed⟩, among, rfl⟩ := List.mem_map.1 there
  obtain ⟨numbered, statement⟩ := List.mem_filter.1 among
  obtain ⟨i, bound, place⟩ := List.mem_iff_getElem.1 numbered
  rw [List.getElem_zip, List.getElem_range', List.getElem_map, Prod.mk.injEq] at place
  obtain ⟨number, rfl⟩ := place
  have isStatement := Source.isStatementLine_iff.1 statement
  refine ⟨i, _, by omega, List.getElem?_eq_getElem _, ?_, isStatement.1, isStatement.2⟩
  exact Text.not_mem_of_mem_lines (List.getElem_mem _)

/-! ### Errors by line -/

section

variable {n k : Nat} {message : String} {groups : List (Nat × List String)} {findings : List Finding}

theorem mem_keys_fileUnder_iff :
    k ∈ (fileUnder n message groups).map Prod.fst ↔ k = n ∨ k ∈ groups.map Prod.fst := by
  fun_induction fileUnder n message groups with
  | case1 => simp
  | case2 => simp
  | case3 => simp
  | case4 m ms rest _ _ ih =>
    rw [List.map_cons, List.mem_cons, ih, List.map_cons, List.mem_cons, or_left_comm]

theorem ascending_fileUnder (ascending : (groups.map Prod.fst).Pairwise (· < ·)) :
    ((fileUnder n message groups).map Prod.fst).Pairwise (· < ·) := by
  fun_induction fileUnder n message groups with
  | case1 => exact List.pairwise_singleton ..
  | case2 m ms rest before =>
    have first := (List.pairwise_cons.1 ascending).1
    refine List.pairwise_cons.2 ⟨List.forall_mem_cons.2 ⟨before, fun l later => ?_⟩, ascending⟩
    exact Nat.lt_trans before (first l later)
  | case3 => exact ascending
  | case4 m ms rest notBefore other ih =>
    obtain ⟨first, others⟩ := List.pairwise_cons.1 ascending
    refine List.pairwise_cons.2 ⟨fun l later => ?_, ih others⟩
    rcases mem_keys_fileUnder_iff.1 later with rfl | later
    · exact Nat.lt_of_le_of_ne (Nat.le_of_not_lt notBefore) (Ne.symm other)
    · exact first l later

/-- One message comes in, and none goes. -/
theorem flatMap_fileUnder (n : Nat) (message : String) (groups : List (Nat × List String)) :
    ((fileUnder n message groups).flatMap Prod.snd).Perm (groups.flatMap Prod.snd ++ [message]) := by
  fun_induction fileUnder n message groups with
  | case1 => exact .refl _
  | case2 => exact (List.perm_append_singleton ..).symm
  | case3 ms rest =>
    rw [List.flatMap_cons, List.flatMap_cons, List.append_assoc, List.append_assoc]
    exact List.perm_append_comm.append_left ms
  | case4 m ms rest _ _ ih =>
    rw [List.flatMap_cons, List.flatMap_cons, List.append_assoc]
    exact ih.append_left ms

/-- What a message does to the groups: one of them has it at its end, or it starts a group. -/
theorem mem_fileUnder {group : Nat × List String} (there : group ∈ fileUnder n message groups) :
    group ∈ groups ∨ group = (n, [message]) ∨ ∃ ms, (n, ms) ∈ groups ∧ group = (n, ms ++ [message]) := by
  fun_induction fileUnder n message groups with
  | case1 => exact .inr (.inl (List.mem_singleton.1 there))
  | case2 => exact (List.mem_cons.1 there).elim (fun new => .inr (.inl new)) .inl
  | case3 ms rest =>
    rcases List.mem_cons.1 there with new | old
    · exact .inr (.inr ⟨ms, List.mem_cons_self, new⟩)
    · exact .inl (List.mem_cons_of_mem _ old)
  | case4 m ms rest _ _ ih =>
    rcases List.mem_cons.1 there with first | later
    · exact .inl (List.mem_cons.2 (.inl first))
    · rcases ih later with old | new | ⟨ms, old, longer⟩
      · exact .inl (List.mem_cons_of_mem _ old)
      · exact .inr (.inl new)
      · exact .inr (.inr ⟨ms, List.mem_cons_of_mem _ old, longer⟩)

/-- Files a finding under its line, if it has one. -/
def fileFinding (groups : List (Nat × List String)) (f : Finding) : List (Nat × List String) :=
  match f.line? with
  | some n => fileUnder n f.message groups
  | none => groups

/-- The messages of what was found on a line. -/
def messagesAt (findings : List Finding) (n : Nat) : List String :=
  (findings.filter fun f => f.line? = some n).map Finding.message

theorem messagesAt_append (findings : List Finding) (f : Finding) (n : Nat) :
    messagesAt (findings ++ [f]) n =
      messagesAt findings n ++ if f.line? = some n then [f.message] else [] := by
  unfold messagesAt
  rw [List.filter_append, List.map_append]
  by_cases own : f.line? = some n <;> simp [own]

theorem ascending_byLine (findings : List Finding) :
    ((byLine findings).map Prod.fst).Pairwise (· < ·) := by
  have filed (groups : List (Nat × List String)) (ascending : (groups.map Prod.fst).Pairwise (· < ·)) :
      ((findings.foldl fileFinding groups).map Prod.fst).Pairwise (· < ·) := by
    induction findings generalizing groups with
    | nil => exact ascending
    | cons f findings ih =>
      refine ih _ ?_
      unfold fileFinding
      cases f.line? with
      | none => exact ascending
      | some n => exact ascending_fileUnder ascending
  exact filed [] .nil

theorem mem_keys_byLine (there : n ∈ (byLine findings).map Prod.fst) :
    ∃ f ∈ findings, f.line? = some n := by
  have filed (findings : List Finding) {groups : List (Nat × List String)}
      (there : n ∈ (findings.foldl fileFinding groups).map Prod.fst) :
      n ∈ groups.map Prod.fst ∨ ∃ f ∈ findings, f.line? = some n := by
    induction findings generalizing groups with
    | nil => exact .inl there
    | cons f findings ih =>
      rcases ih there with first | ⟨g, later, line⟩
      · unfold fileFinding at first
        cases line : f.line? with
        | none =>
          rw [line] at first
          exact .inl first
        | some m =>
          rw [line] at first
          refine (mem_keys_fileUnder_iff.1 first).symm.imp_right ?_
          rintro rfl
          exact ⟨f, List.mem_cons_self, line⟩
      · exact .inr ⟨g, List.mem_cons_of_mem _ later, line⟩
  exact (filed findings there).resolve_left List.not_mem_nil

/-- Together the groups hold the messages of all that has a line, each as often as it was found. -/
theorem flatMap_byLine (findings : List Finding) : ((byLine findings).flatMap Prod.snd).Perm
    ((findings.filter fun f => f.line?.isSome).map Finding.message) := by
  have filed (groups : List (Nat × List String)) :
      ((findings.foldl fileFinding groups).flatMap Prod.snd).Perm (groups.flatMap Prod.snd ++
        (findings.filter fun f => f.line?.isSome).map Finding.message) := by
    induction findings generalizing groups with
    | nil => rw [List.foldl_nil, List.filter_nil, List.map_nil, List.append_nil]
    | cons f findings ih =>
      refine (ih (fileFinding groups f)).trans ?_
      unfold fileFinding
      cases line : f.line? with
      | none => rw [List.filter_cons_of_neg (by simp [line])]
      | some n =>
        rw [List.filter_cons_of_pos (by simp [line]), List.map_cons, List.append_cons]
        exact (flatMap_fileUnder n f.message groups).append_right _
  exact filed []

/-- A group holds messages of its own line only, in the order in which they were found. -/
theorem sublist_of_mem_byLine {group : Nat × List String} (there : group ∈ byLine findings) :
    group.2.Sublist (messagesAt findings group.1) := by
  have filed (before later : List Finding) {groups : List (Nat × List String)}
      (each : ∀ group ∈ groups, group.2.Sublist (messagesAt before group.1)) :
      ∀ group ∈ later.foldl fileFinding groups, group.2.Sublist (messagesAt (before ++ later) group.1) := by
    induction later generalizing before groups with
    | nil => rwa [List.append_nil]
    | cons f later ih =>
      rw [List.append_cons]
      refine ih (before ++ [f]) fun group there => ?_
      have old {n : Nat} {ms : List String} (among : (n, ms) ∈ groups) :
          ms.Sublist (messagesAt (before ++ [f]) n) := by
        rw [messagesAt_append]
        exact (each _ among).trans (List.sublist_append_left _ _)
      unfold fileFinding at there
      cases line : f.line? with
      | none =>
        rw [line] at there
        exact old there
      | some n =>
        rw [line] at there
        rcases mem_fileUnder there with among | rfl | ⟨ms, among, rfl⟩
        · exact old among
        · rw [messagesAt_append, if_pos line]
          exact List.sublist_append_right _ _
        · rw [messagesAt_append, if_pos line]
          exact (each _ among).append (.refl _)
  exact filed [] findings (List.forall_mem_nil _) group there

theorem messagesAt_sublist (findings : List Finding) (n : Nat) :
    (messagesAt findings n).Sublist (findings.map Finding.message) := List.filter_sublist.map _

end

/-! ### Hints -/

/-- Adds the hint of a finding, unless it was given before. -/
def addHint (hints : List String) (f : Finding) : List String :=
  if hints.contains f.suggestion then hints else hints ++ [f.suggestion]

theorem mem_addHint_iff {hint : String} {hints : List String} :
    hint ∈ addHint hints f ↔ hint ∈ hints ∨ f.suggestion = hint := by
  unfold addHint
  split
  · next given =>
    rw [List.contains_iff_mem] at given
    exact ⟨.inl, fun either => either.elim id fun same => same ▸ given⟩
  · rw [List.mem_append, List.mem_singleton, eq_comm (a := hint)]

theorem nodup_addHint {hints : List String} (distinct : hints.Nodup) (f : Finding) :
    (addHint hints f).Nodup := by
  unfold addHint
  split
  · exact distinct
  · next new =>
    rw [List.contains_iff_mem] at new
    exact List.nodup_append.2 ⟨distinct, List.nodup_cons.2 ⟨List.not_mem_nil, .nil⟩, fun hint given other last same =>
      new (List.mem_singleton.1 last ▸ same ▸ given)⟩

theorem length_addHint_le (hints : List String) (f : Finding) :
    (addHint hints f).length ≤ hints.length + 1 := by
  unfold addHint
  split
  · exact Nat.le_succ _
  · rw [List.length_append, List.length_singleton]

theorem nodup_suggestions (rules : Rules) (text : String) : (suggestions rules text).Nodup := by
  have added (findings : List Finding) {hints : List String} (distinct : hints.Nodup) :
      (findings.foldl addHint hints).Nodup := by
    induction findings generalizing hints with
    | nil => exact distinct
    | cons f findings ih => exact ih (nodup_addHint distinct f)
  exact added _ .nil

theorem length_suggestions_le (rules : Rules) (text : String) :
    (suggestions rules text).length ≤ (scan rules text).findings.length := by
  have added (findings : List Finding) (hints : List String) :
      (findings.foldl addHint hints).length ≤ hints.length + findings.length := by
    induction findings generalizing hints with
    | nil => exact Nat.le_refl _
    | cons f findings ih =>
      have first := length_addHint_le hints f
      have others := ih (addHint hints f)
      rw [List.foldl_cons, List.length_cons]
      omega
  exact (added (scan rules text).findings []).trans_eq (Nat.zero_add _)

theorem mem_suggestions_iff {hint : String} :
    hint ∈ suggestions rules text ↔ ∃ f ∈ (scan rules text).findings, f.suggestion = hint := by
  have added (findings : List Finding) (hints : List String) :
      hint ∈ findings.foldl addHint hints ↔ hint ∈ hints ∨ ∃ f ∈ findings, f.suggestion = hint := by
    induction findings generalizing hints with
    | nil => simp
    | cons f findings ih => rw [List.foldl_cons, ih, mem_addHint_iff, List.exists_mem_cons_iff, or_assoc]
  exact (added _ []).trans (or_iff_right List.not_mem_nil)

theorem suggestions_eq_nil_iff : suggestions rules text = [] ↔ (scan rules text).findings = [] := by
  rw [List.eq_nil_iff_forall_not_mem, List.eq_nil_iff_forall_not_mem]
  constructor
  · exact fun none f there => none f.suggestion (mem_suggestions_iff.2 ⟨f, there, rfl⟩)
  · intro none hint given
    obtain ⟨f, there, -⟩ := mem_suggestions_iff.1 given
    exact none f there

/-! ### The views -/

/-- A report on a text, and the hints for it, all tell the same. -/
structure Coherent (text : String) (report : Report) (hints : List String) : Prop where
  valid : report.isValid = true ↔ report.errors = []
  hinted : report.errors = [] ↔ hints = []
  distinct : hints.Nodup
  fewer : hints.length ≤ report.errors.length
  /-- No line has two groups. -/
  ascending : (report.lineErrors.map Prod.fst).Pairwise (· < ·)
  /-- Lines are counted from 1, and only those that are neither blank nor comments have errors. -/
  sited : ∀ n ∈ report.lineErrors.map Prod.fst,
    ∃ i line, n = i + 1 ∧ (Text.lines text.toList)[i]? = some line ∧ Source.IsStatement line
  /-- The lines have all the errors, each as often as it is reported. -/
  complete : report.errors ≠ [Finding.emptyDiagram.message] →
    (report.lineErrors.flatMap Prod.snd).Perm report.errors
  ordered : ∀ group ∈ report.lineErrors, group.2.Sublist report.errors

/-- All the findings of a text that is not empty have a line. -/
theorem filter_line?_findings (notEmpty : (validate rules text).errors ≠ [Finding.emptyDiagram.message]) :
    (scan rules text).findings.filter (fun f => f.line?.isSome) = (scan rules text).findings := by
  refine List.filter_eq_self.2 fun f there => ?_
  rcases exists_line_of_mem_findings there with rfl | ⟨n, -, line⟩
  · exact absurd ((errors_eq_emptyDiagram_iff rules text).2 ((emptyDiagram_mem_findings_iff rules text).1 there))
      notEmpty
  · rw [line]
    rfl

/-- Whatever the rules, the views of one text agree; rules make a difference for the warnings alone. -/
theorem coherent_validate (rules : Rules) (text : String) :
    Coherent text (validate rules text) (suggestions rules text) ∧
      ∀ other : Rules, suggestions other text = suggestions rules text ∧
        { validate other text with warnings := (validate rules text).warnings } = validate rules text := by
  have found : (validate rules text).errors = [] ↔ (scan rules text).findings = [] := by
    rw [errors_validate, List.map_eq_nil_iff]
  refine ⟨?_, fun other => ?_⟩
  · constructor
    · exact List.isEmpty_iff.trans found.symm
    · exact found.trans suggestions_eq_nil_iff.symm
    · exact nodup_suggestions rules text
    · rw [errors_validate, List.length_map]
      exact length_suggestions_le rules text
    · exact ascending_byLine _
    · intro n there
      obtain ⟨f, among, line⟩ := mem_keys_byLine there
      rcases exists_line_of_mem_findings among with rfl | ⟨m, statement, own⟩
      · cases line
      · rw [line, Option.some_inj] at own
        exact exists_statement_of_mem (own ▸ statement)
    · intro notEmpty
      have filed := flatMap_byLine (scan rules text).findings
      rwa [filter_line?_findings notEmpty] at filed
    · intro group there
      rw [lineErrors_validate] at there
      rw [errors_validate]
      exact (sublist_of_mem_byLine there).trans (messagesAt_sublist _ _)
  · have findings : (scan other text).findings = (scan rules text).findings :=
      (findings_scan other text).trans (findings_scan rules text).symm
    have declared : (scan other text).declared = (scan rules text).declared :=
      (declared_scan other text).trans (declared_scan rules text).symm
    constructor
    · rw [suggestions, findings, suggestions]
    · rw [validate, Scan.report, findings, declared]
      rfl

/-- What is left open is reported last and filed under the line on which it was opened. -/
example : (validate .usual "venn\nA\x7bx\nB]").lineErrors = [
    (1, ["Unknown or invalid diagram type"]),
    (2, ["Unclosed bracket opened at line 2, expected '\x7d'"]),
    (3, ["Unmatched closing bracket ']' at line 3"])] := by decide +kernel

end DiagramText.Validation
