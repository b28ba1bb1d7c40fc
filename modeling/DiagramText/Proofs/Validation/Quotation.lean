import DiagramText.Proofs.Entities.Validity
import DiagramText.Proofs.Validation.Mending

/-! Quoted text and the bracket scan. The scan passes over what stands between two quotes of a line, so that
any other text there makes no difference to it. The masks of the dialects are put on before quotes are looked
at, though: a colon between the quotes cuts a line like any other, and so do the dashes and dots that make
a line a relationship. Where the mask is alike for both texts, nothing that is found changes. -/
namespace DiagramText.Validation

open Cursor (step)
open Entities (LooksRelated scannable_of_looksRelated scannable_of_not_looksRelated)

variable {f : Bool} {t : Option Declared} {before quoted old new after : List Char}

/-- A quoted text, with what stands on its line before and after it. -/
def between (before quoted after : List Char) : List Char := before ++ '"' :: (quoted ++ '"' :: after)

/-! ### The scan -/

theorem scanLine_between (even : Even (before.count '"')) (freeOld : '"' ∉ old) (freeNew : '"' ∉ new) (b : Brackets)
    (n : Nat) (after : List Char) : scanLine f b n (between before old after) =
      scanLine f b n (between before new after) := by
  have outside : (before.foldl (step ⟨f, n, b.openings.length⟩) (.start b)).quoted = false :=
    outside_of_even even rfl
  rw [scanLine, between, List.foldl_append, foldl_quoted freeOld outside, scanLine, between, List.foldl_append,
    foldl_quoted freeNew outside]

/-! ### The masks -/

/-- Whether the mask of a dialect treats a line alike, whichever of two texts stands between the quotes. What
counts of a line is told by its first colon; in entity relationship diagrams it is that behind the colon, on
lines that look related. -/
def MaskedAlike (declared : Option Declared) (before old new after : List Char) : Prop :=
  match declared with
  | some .sequence | some .states => ':' ∈ before ∨ (':' ∈ old ↔ ':' ∈ new)
  | some .entities =>
    (LooksRelated (between before old after) ↔ LooksRelated (between before new after)) ∧
      (LooksRelated (between before old after) →
        if ':' ∈ before then Even ((before.takeWhile (· != ':')).count '"') else ':' ∉ old ∧ ':' ∉ new)
  | _ => True

/-- Where a line counts up to its first colon. -/
theorem scanLine_cut_between (even : Even (before.count '"')) (freeOld : '"' ∉ old) (freeNew : '"' ∉ new)
    (alike : ':' ∈ before ∨ (':' ∈ old ↔ ':' ∈ new)) (b : Brackets) (n : Nat) (after : List Char) :
    scanLine f b n ((between before old after).takeWhile (· != ':')) =
      scanLine f b n ((between before new after).takeWhile (· != ':')) := by
  by_cases colon : ':' ∈ before
  · obtain ⟨front, back, rfl, free⟩ := List.eq_append_cons_of_mem colon
    simp only [between, List.append_assoc, takeWhile_cut free, List.cons_append, List.takeWhile_cons, bne_self_eq_false,
      Bool.false_eq_true, if_false]
  · have quote (quoted : List Char) : (between before quoted after).takeWhile (· != ':') =
        before ++ '"' :: (quoted ++ '"' :: after).takeWhile (· != ':') := takeWhile_cut colon _
    have alike := alike.resolve_left colon
    by_cases inside : ':' ∈ old
    · -- The cut leaves a quote open.
      have unclosed (quoted : List Char) (colon : ':' ∈ quoted) (free : '"' ∉ quoted) :
          '"' ∉ (quoted ++ '"' :: after).takeWhile (· != ':') := by
        obtain ⟨front, back, rfl, none⟩ := List.eq_append_cons_of_mem colon
        rw [List.append_assoc, takeWhile_cut none, List.cons_append, List.takeWhile_cons_of_neg (by simp),
          List.append_nil]
        exact fun quote => free (List.mem_append_left _ quote)
      rw [quote, quote, scanLine_openQuote even (unclosed old inside freeOld),
        scanLine_openQuote even (unclosed new (alike.1 inside) freeNew)]
    · have plain (quoted : List Char) (free : ':' ∉ quoted) : (quoted ++ '"' :: after).takeWhile (· != ':') =
          quoted ++ '"' :: after.takeWhile (· != ':') := takeWhile_cut free _
      rw [quote, quote, plain old inside, plain new (mt alike.2 inside)]
      exact scanLine_between even freeOld freeNew b n _

/-- What stands behind the first colon of a line. -/
def behindColon (line : List Char) : List Char := ((Text.cut? ':' line).map (·.2)).getD []

theorem behindColon_append {front : List Char} (free : ':' ∉ front) (rest : List Char) :
    behindColon (front ++ rest) = behindColon rest := by
  induction front with
  | nil => rfl
  | cons c front ih =>
    rw [List.mem_cons, not_or] at free
    rw [← ih free.2, behindColon, behindColon, List.cons_append, Text.cut?, if_neg (Ne.symm free.1), Option.map_map]
    rfl

/-- Where a line counts behind its first colon. -/
theorem scanLine_behindColon_between (even : Even (before.count '"')) (freeOld : '"' ∉ old) (freeNew : '"' ∉ new)
    (alike : if ':' ∈ before then Even ((before.takeWhile (· != ':')).count '"') else ':' ∉ old ∧ ':' ∉ new)
    (b : Brackets) (n : Nat) (after : List Char) :
    scanLine f b n (behindColon (between before old after)) =
      scanLine f b n (behindColon (between before new after)) := by
  by_cases colon : ':' ∈ before
  · rw [if_pos colon] at alike
    obtain ⟨front, back, rfl, free⟩ := List.eq_append_cons_of_mem colon
    have behind (quoted : List Char) : behindColon (between (front ++ ':' :: back) quoted after) =
        between back quoted after := by
      rw [between, List.append_assoc, behindColon_append free]
      rfl
    rw [takeWhile_cut free, List.takeWhile_cons_of_neg (by simp), List.append_nil] at alike
    rw [List.count_append, List.count_cons_of_ne (by decide), Nat.even_add] at even
    rw [behind, behind]
    exact scanLine_between (even.1 alike) freeOld freeNew b n after
  · rw [if_neg colon] at alike
    have behind (quoted : List Char) (free : ':' ∉ quoted) : behindColon (between before quoted after) =
        behindColon after := by
      have front : ':' ∉ before ++ '"' :: (quoted ++ ['"']) := by simp [colon, free]
      have whole : between before quoted after = before ++ '"' :: (quoted ++ ['"']) ++ after := by simp [between]
      rw [whole, behindColon_append front]
    rw [behind old alike.1, behind new alike.2]

/-- A quoted text makes no difference to what is counted of a line, if the mask is alike. -/
theorem scanLine_scannable_between (even : Even (before.count '"')) (freeOld : '"' ∉ old) (freeNew : '"' ∉ new)
    (alike : MaskedAlike t before old new after) (b : Brackets) (n : Nat) :
    scanLine (t = some .flowchart) b n (scannable t (between before old after)) =
      scanLine (t = some .flowchart) b n (scannable t (between before new after)) := by
  have cut (cuts : CutsAtColon t) (alike : ':' ∈ before ∨ (':' ∈ old ↔ ':' ∈ new)) :
      scanLine (t = some .flowchart) b n (scannable t (between before old after)) =
        scanLine (t = some .flowchart) b n (scannable t (between before new after)) := by
    rw [cuts.scannable, cuts.scannable]
    exact scanLine_cut_between even freeOld freeNew alike b n after
  match t with
  | some .sequence => exact cut (.inl rfl) alike
  | some .states => exact cut (.inr rfl) alike
  | some .entities =>
    by_cases looks : LooksRelated (between before old after)
    · rw [scannable_of_looksRelated looks, scannable_of_looksRelated (alike.1.1 looks)]
      exact scanLine_behindColon_between even freeOld freeNew (alike.2 looks) b n after
    · rw [scannable_of_not_looksRelated looks, scannable_of_not_looksRelated (mt alike.1.2 looks)]
      exact scanLine_between even freeOld freeNew b n after
  | none | some .flowchart | some .classes | some .journey | some .gantt | some .pie | some .gitgraph | some .mindmap
  | some .timeline => exact scanLine_between even freeOld freeNew b n after

/-! ### The line -/

theorem trim_between (before quoted after : List Char) : Text.trim (between before quoted after) =
    between (Text.trimLeft before) quoted (Text.trimRight after) := by
  have solid : Text.isBlank '"' = false := by decide
  rw [Text.trim, between, Text.trimLeft_append_cons solid, Text.trimRight_append_cons solid,
    Text.trimRight_append_cons solid, between]

/-- Whether a line is a statement does not depend on what is quoted on it. -/
theorem isStatementLine_between (before quoted after : List Char) :
    isStatementLine (between before quoted after) = !Text.startsWith ['%', '%'] before := by
  have filled : between before quoted after ≠ [] := by simp [between]
  rw [isStatementLine, bne_iff_ne.2 filled, Bool.true_and]
  congr 1
  rw [Bool.eq_iff_iff, Text.startsWith_iff, Text.startsWith_iff, between]
  rcases before with _ | ⟨c, _ | ⟨d, before⟩⟩ <;> simp

theorem takeLine_between (even : Even (before.count '"')) (freeOld : '"' ∉ old) (freeNew : '"' ∉ new)
    (alike : MaskedAlike t (Text.trimLeft before) old new (Text.trimRight after)) (n : Nat) (b : Brackets) :
    takeLine t n b (String.ofList (between before old after)) =
      takeLine t n b (String.ofList (between before new after)) := by
  have even : Even ((Text.trimLeft before).count '"') := by
    have blanks : (before.takeWhile Text.isBlank).count '"' = 0 := by
      rw [List.count_eq_zero]
      exact fun inside => absurd (List.all_eq_true.1 List.all_takeWhile _ inside) (by decide)
    rwa [← List.takeWhile_append_dropWhile (p := Text.isBlank) (l := before), List.count_append, blanks,
      Nat.zero_add] at even
  rw [takeLine, takeLine, String.toList_ofList, String.toList_ofList, trim_between, trim_between]
  rw [isStatementLine_between, isStatementLine_between, scanLine_scannable_between even freeOld freeNew alike]

/-! ### The text -/

theorem pieces_between (unbroken : '\n' ∉ before) (free : '\n' ∉ quoted) (rest : List Char) :
    Text.pieces '\n' (between before quoted rest) =
      between before quoted (rest.takeWhile (· != '\n')) :: (Text.pieces '\n' rest).tail := by
  have front (after : List Char) : between before quoted after = before ++ '"' :: (quoted ++ ['"']) ++ after := by
    simp [between]
  have start : '\n' ∉ before ++ '"' :: (quoted ++ ['"']) := by simp [unbroken, free]
  rw [front, front, Text.pieces_append_left start, Text.pieces_eq_cons]
  rfl

/-- What a text makes of the brackets, line by line. -/
theorem bracketsAtEnd_eq_takeLines (text : String) : bracketsAtEnd text =
    takeLines (Declared.ofText? text) 1 .empty ((Text.pieces '\n' text.toList).map String.ofList) := by
  have lines : (Text.pieces '\n' text.toList).map Text.trim =
      ((Text.pieces '\n' text.toList).map String.ofList).map fun line => Text.trim line.toList := by
    rw [List.map_map]
    exact List.map_congr_left fun piece _ => by rw [Function.comp_apply, String.toList_ofList]
  rw [← scan_statementLines, bracketsAtEnd, statementLines_eq_pieces, lines, List.length_map]
  rfl

/-- A text with a quoted piece on a line below another text. -/
def quoting (above before quoted rest : String) : String :=
  above ++ "\n" ++ (before ++ "\"" ++ quoted ++ "\"" ++ rest)

section Quoting

variable {above before old new rest : String}

theorem toList_quoting (above before quoted rest : String) : (quoting above before quoted rest).toList =
    above.toList ++ '\n' :: between before.toList quoted.toList rest.toList := by
  simp [quoting, between]

/-- The declaration of a text is above all that is below it. -/
theorem head?_statementLines_quoting (declared : statementLines above ≠ []) (before quoted rest : String) :
    (statementLines (quoting above before quoted rest)).head? = (statementLines above).head? := by
  rw [quoting, statementLines_below, List.head?_append_of_ne_nil _ declared]

theorem bracketsAtEnd_requoted (declared : statementLines above ≠ []) (unbroken : '\n' ∉ before.toList)
    (opens : Even (before.toList.count '"')) (isOld : '"' ∉ old.toList ∧ '\n' ∉ old.toList)
    (isNew : '"' ∉ new.toList ∧ '\n' ∉ new.toList)
    (alike : MaskedAlike (Declared.ofText? above) (Text.trimLeft before.toList) old.toList new.toList
      (Text.trimRight (rest.toList.takeWhile (· != '\n')))) :
    bracketsAtEnd (quoting above before new rest) = bracketsAtEnd (quoting above before old rest) := by
  have type (quoted : String) : Declared.ofText? (quoting above before quoted rest) = Declared.ofText? above := by
    rw [Declared.ofText?, head?_statementLines_quoting declared, Declared.ofText?]
  rw [bracketsAtEnd_eq_takeLines, bracketsAtEnd_eq_takeLines, type, type, toList_quoting, toList_quoting,
    Text.pieces_append, Text.pieces_append, pieces_between unbroken isNew.2, pieces_between unbroken isOld.2,
    List.map_append, List.map_append, takeLines_append, takeLines_append, List.map_cons, List.map_cons, takeLines,
    takeLines, takeLine_between opens isOld.1 isNew.1 alike]

/-- What stands between two quotes of a line below the declaration makes no difference to the errors, nor to
the lines that they are put under, if the mask of the dialect treats the line alike. -/
theorem errors_requoted (rules : Rules) (declared : statementLines above ≠ []) (unbroken : '\n' ∉ before.toList)
    (opens : Even (before.toList.count '"')) (isOld : '"' ∉ old.toList ∧ '\n' ∉ old.toList)
    (isNew : '"' ∉ new.toList ∧ '\n' ∉ new.toList)
    (alike : MaskedAlike (Declared.ofText? above) (Text.trimLeft before.toList) old.toList new.toList
      (Text.trimRight (rest.toList.takeWhile (· != '\n')))) :
    (validate rules (quoting above before new rest)).errors = (validate rules (quoting above before old rest)).errors ∧
      (validate rules (quoting above before new rest)).lineErrors =
        (validate rules (quoting above before old rest)).lineErrors := by
  have findings : (scan rules (quoting above before new rest)).findings =
      (scan rules (quoting above before old rest)).findings := by
    rw [findings_eq_bracketsAtEnd, findings_eq_bracketsAtEnd, declarationFindings, declarationFindings,
      head?_statementLines_quoting declared, head?_statementLines_quoting declared,
      bracketsAtEnd_requoted declared unbroken opens isOld isNew alike]
  rw [errors_validate, errors_validate, lineErrors_validate, lineErrors_validate, findings]
  exact ⟨rfl, rfl⟩

/-- A composite state with a label. -/
def labelled (label : String) : String := quoting "stateDiagram" "state " label " as S \x7b\nX\n\x7d"

theorem errors_requoted_labelled :
    MaskedAlike (Declared.ofText? "stateDiagram") (Text.trimLeft "state ".toList) "a".toList "]b -- (c|".toList
      (Text.trimRight (" as S \x7b\nX\n\x7d".toList.takeWhile (· != '\n'))) ∧
    (validate .usual (labelled "]b -- (c|")).errors = (validate .usual (labelled "a")).errors ∧
      (validate .usual (labelled "]b -- (c|")).lineErrors = (validate .usual (labelled "a")).lineErrors := by
  have alike : MaskedAlike (Declared.ofText? "stateDiagram") (Text.trimLeft "state ".toList) "a".toList
      "]b -- (c|".toList (Text.trimRight (" as S \x7b\nX\n\x7d".toList.takeWhile (· != '\n'))) := by
    have known : Declared.ofText? "stateDiagram" = some .states := by decide
    rw [known]
    exact .inr (by decide)
  have same := errors_requoted .usual (by decide) (by decide) (by decide) (by decide) (by decide) alike
  exact ⟨alike, same⟩

/-- A colon in the label hides the brace behind it, and the brace that closes the state is a stray. -/
theorem errors_labelled_colon : (validate .usual (labelled "a")).errors = [] ∧
    (validate .usual (labelled "a: b")).errors = ["Unmatched closing bracket '\x7d' at line 4"] := by
  decide +kernel

end Quoting

end DiagramText.Validation
