import DiagramText.Flowchart.Printer
import DiagramText.Flowchart.Statement
import DiagramText.Proofs.Quoting

/-! Labels in flowchart source. A label is written bare or in quotes, and either way it is read back
up to whatever bracket comes after it; only a tab that stands bare ends it too soon. What is read is
written as before. -/
namespace DiagramText.Flowchart

open Reader (Reads Refuses Stops)

/-- A label that source can carry: on one line, without tabs and without an entity of its own. -/
structure IsLabel (label : String) : Prop where
  tab : '\t' ∉ label.toList
  cr : '\r' ∉ label.toList
  lf : '\n' ∉ label.toList
  noEntity : ¬ Text.quoteEntity <:+: label.toList

theorem isLabel_iff {label : String} : IsLabel label ↔
    (label.toList.all fun c => c != '\t' && c != '\r' && c != '\n') ∧
      Text.occursIn Text.quoteEntity label.toList = false := by
  simp only [List.all_eq_true, Bool.and_eq_true, bne_iff_ne, ← Bool.not_eq_true, Text.occursIn_iff]
  constructor
  · intro isLabel
    refine ⟨fun c h => ⟨⟨?_, ?_⟩, ?_⟩, isLabel.noEntity⟩ <;> rintro rfl
    · exact isLabel.tab h
    · exact isLabel.cr h
    · exact isLabel.lf h
  · rintro ⟨free, noEntity⟩
    exact ⟨fun h => (free _ h).1.1 rfl, fun h => (free _ h).1.2 rfl, fun h => (free _ h).2 rfl, noEntity⟩

instance (label : String) : Decidable (IsLabel label) := decidable_of_iff' _ isLabel_iff

/-- A label that needs no quotes. -/
structure IsBare (cs : List Char) : Prop where
  some : cs ≠ []
  tight : Text.trim cs = cs
  free : ∀ c ∈ cs, c ∉ quoteTriggers

theorem isBare_iff {cs : List Char} : IsBare cs ↔ needsQuotes cs = false := by
  rw [← Bool.not_eq_true]
  simp only [needsQuotes, Bool.or_eq_true, not_or, decide_eq_true_eq, bne_iff_ne, ne_eq,
    Decidable.not_not, List.any_eq_true, not_exists, not_and, List.contains_iff_mem]
  exact ⟨fun bare => ⟨⟨bare.some, bare.tight⟩, bare.free⟩, fun h => ⟨h.1.1, h.1.2, h.2⟩⟩

/-- What is read of a label. -/
@[irreducible]
def carried (label : String) : String :=
  if needsQuotes (Text.oneLine label).toList then Text.requoted label else Text.oneLine label

/-- A label without a tab, unless the tab stands in quotes. -/
def Keeps (label : String) : Prop := needsQuotes (Text.oneLine label).toList ∨ '\t' ∉ label.toList

instance (label : String) : Decidable (Keeps label) := inferInstanceAs (Decidable (_ ∨ _))

variable {text : String} {rest : List Char}

/-- A label is written bare, on one line, or in quotes. -/
theorem labelText_cases (text : String) :
    IsBare (Text.oneLine text).toList ∧ labelText text = Text.oneLine text ∧
        carried text = Text.oneLine text ∨
      needsQuotes (Text.oneLine text).toList ∧ labelText text = Text.quoted text ∧
        carried text = Text.requoted text := by
  unfold carried
  by_cases h : needsQuotes (Text.oneLine text).toList
  · exact .inr ⟨h, (if_pos h).trans (Text.quoted_oneLine text), if_pos h⟩
  · exact .inl ⟨isBare_iff.2 (by simpa using h), if_neg h, if_neg h⟩

/-- What is read of a label is what quotes carry: one that stands bare has nothing to encode. -/
theorem carried_eq_requoted (text : String) : carried text = Text.requoted text := by
  obtain ⟨bare, -, same⟩ | ⟨-, -, same⟩ := labelText_cases text
  · have noEntity : ¬ Text.quoteEntity <:+: text.toList := by
      intro entity
      have semicolon : ';' ∈ text.toList := entity.subset (by decide)
      refine bare.free ';' ?_ (by decide)
      rw [Text.toList_oneLine]
      exact Text.mem_singleLine (by decide) semicolon
    rw [same, Text.requoted_eq_oneLine noEntity]
  · exact same

theorem IsLabel.keeps (isLabel : IsLabel text) : Keeps text := .inr isLabel.tab

/-- A label that source can carry comes back as it was. -/
theorem IsLabel.carried (isLabel : IsLabel text) : carried text = text := by
  have quotable : Text.IsQuotable text := ⟨isLabel.cr, isLabel.lf, isLabel.noEntity⟩
  rw [carried_eq_requoted, quotable.requoted]

/-- What was read of a label is written as the label was. -/
theorem labelText_carried (text : String) : labelText (carried text) = labelText text := by
  obtain ⟨-, -, same⟩ | ⟨quotes, written, same⟩ := labelText_cases text
  · rw [same]
    unfold labelText
    rw [Text.oneLine_oneLine]
  · rw [same, written]
    obtain ⟨bare, -, -⟩ | ⟨-, again, -⟩ := labelText_cases (Text.requoted text)
    · rw [Text.oneLine_requoted] at bare
      -- Bare text has neither quotes nor semicolons, so nothing was encoded that needed the quotes.
      have line : Text.requoted text = Text.oneLine text := Text.requoted_eq_oneLine_of_free
        (fun h => bare.free _ h (by decide)) fun h => bare.free _ h (by decide)
      rw [line, isBare_iff, quotes] at bare
      cases bare
    · rw [again, Text.quoted_requoted]

theorem endsSlantedLabel_eq_false {c : Char} (free : c ∉ quoteTriggers) (tab : c ≠ '\t')
    (cr : c ≠ '\r') (lf : c ≠ '\n') : endsSlantedLabel c = false := by
  simp only [quoteTriggers, List.mem_cons, List.not_mem_nil, or_false, not_or] at free
  simp [endsSlantedLabel, endsLabel, free, tab, cr, lf]

/-- No character of a bare label ends one. -/
theorem IsBare.endsSlantedLabel (bare : IsBare (Text.oneLine text).toList) (keeps : Keeps text) :
    ∀ c ∈ (Text.oneLine text).toList, endsSlantedLabel c = false := by
  have tab : '\t' ∉ text.toList := keeps.resolve_left (by rw [isBare_iff.1 bare]; decide)
  intro c h
  have line := Text.toList_oneLine text ▸ h
  refine endsSlantedLabel_eq_false (bare.free c h) ?_ (Text.not_break_of_mem_singleLine line).2
    (Text.not_break_of_mem_singleLine line).1
  rintro rfl
  exact tab (Text.mem_of_mem_singleLine (by decide) line)

theorem IsBare.not_quote {cs : List Char} (bare : IsBare cs) : ¬ ['"'] <+: cs ++ rest := by
  cases cs with
  | nil => exact absurd rfl bare.some
  | cons c cs =>
    intro quote
    obtain ⟨rfl, -⟩ := List.cons_prefix_cons.1 quote
    exact bare.free _ (List.mem_cons_self ..) (by decide)

/-- A label is read back up to the bracket that ends it. -/
theorem reads_label {ends : Char → Bool} (lax : ∀ c, ends c → endsSlantedLabel c) (keeps : Keeps text)
    {c : Char} (closes : ends c) :
    Reads (label ends) ((labelText text).toList ++ c :: rest) (carried text) (c :: rest) := by
  obtain ⟨bare, written, read⟩ | ⟨-, written, read⟩ := labelText_cases text
  · rw [written, read]
    have all : ∀ d ∈ (Text.oneLine text).toList, !ends d := by
      intro d h
      rw [Bool.not_eq_true', ← Bool.not_eq_true]
      intro stop
      have := lax d stop
      rw [bare.endsSlantedLabel keeps d h] at this
      cases this
    have stops : Stops (fun d => !ends d) (c :: rest) := by simp [closes]
    refine (Reader.refuses_quoted bare.not_quote).orElse ?_
    refine (Reader.reads_run1 bare.some all stops).bind ?_
    rw [bare.tight, String.ofList_toList]
    exact Reads.pure _ _
  · rw [written, read]
    exact (Text.reads_quoted text _).orElse

/-- What a label starts with opens no bracket. -/
theorem labelText_first (text : String) :
    ∃ c cs, (labelText text).toList = c :: cs ∧ (c = '"' ∨ c ∉ quoteTriggers) := by
  obtain ⟨bare, written, -⟩ | ⟨-, written, -⟩ := labelText_cases text
  · rw [written]
    cases h : (Text.oneLine text).toList with
    | nil => exact absurd h bare.some
    | cons c cs => exact ⟨c, cs, rfl, .inr (bare.free c (by simp [h]))⟩
  · exact ⟨_, _, (congrArg _ written).trans (Text.toList_quoted text), .inl rfl⟩

/-- A semicolon in a label separates no statements. -/
theorem unquotedPieces_labelText (text : String) (whole : Text.unquotedPieces ';' false rest = [rest]) :
    Text.unquotedPieces ';' false ((labelText text).toList ++ rest) =
      [(labelText text).toList ++ rest] := by
  obtain ⟨bare, written, -⟩ | ⟨-, written, -⟩ := labelText_cases text
  · rw [written]
    apply Text.unquotedPieces_append _ whole
    intro c h
    have free := bare.free c h
    constructor <;> rintro rfl
    · exact free (by decide)
    · exact free (by decide)
  · rw [written, Text.toList_quoted, List.cons_append, List.append_assoc, List.singleton_append]
    apply Text.unquotedPieces_quote (by decide)
    apply Text.unquotedPieces_append_quoted (Text.not_mem_encodeQuotes _)
    exact Text.unquotedPieces_quote (by decide) whole

theorem not_mem_labelText (text : String) : '\n' ∉ (labelText text).toList := by
  obtain ⟨-, written, -⟩ | ⟨-, written, -⟩ := labelText_cases text
  · rw [written, Text.toList_oneLine]
    exact Text.not_mem_singleLine _
  · rw [written]
    exact Text.not_mem_quoted text

/-! ### Trimmed labels -/

/-- Labels of connections are trimmed, and so is what is read of them. -/
theorem trimmed_carried (tight : Text.trimmed text = text) : Text.trimmed (carried text) = carried text := by
  rw [carried_eq_requoted, Text.trimmed_requoted tight]

theorem carried_eq_empty_iff : carried text = "" ↔ text = "" := by
  rw [carried_eq_requoted, Text.requoted_eq_empty_iff]

end DiagramText.Flowchart
