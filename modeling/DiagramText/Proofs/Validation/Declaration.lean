import DiagramText.Proofs.Registry
import DiagramText.Proofs.Source
import DiagramText.Validation.Report
import Mathlib.Data.List.TakeWhile

/-! What a text is. A registry takes the first statement line up to its first semicolon and compares its
first word as a whole; the validator tries its keywords one after the other at the start of the same
line. Both find the same: a text without a statement is empty for both, and a text that is read as a
diagram is declared as the dialect of that diagram. -/
namespace DiagramText

/-- The first word is what comes before the first separator. -/
theorem Text.head?_wordsBy {p : Char → Bool} {c : Char} (solid : p c = false) (cs : List Char) :
    (wordsBy p (c :: cs)).head? = some ((c :: cs).takeWhile fun d => !p d) := by
  induction cs generalizing c with
  | nil => simp [wordsBy, solid]
  | cons d cs ih =>
    by_cases separator : p d
    · simp [wordsBy, solid, separator]
    · have next := ih (c := d) (by simpa using separator)
      rw [wordsBy, solid, if_neg Bool.false_ne_true]
      cases words : wordsBy p (d :: cs) with
      | nil =>
        rw [words] at next
        cases next
      | cons w ws =>
        rw [words, List.head?_cons, Option.some_inj] at next
        simp [solid, separator, next]

namespace Source

open Validation (isStatementLine statementLines)

/-- The header that a statement line gives. -/
def headerOf (line : List Char) : List Char :=
  match Text.cut? ';' line with
  | some (declaration, _) => Text.trim declaration
  | none => line

/-- What a line has behind its first semicolon, trimmed. -/
def behindSemicolon (line : List Char) : List Char := ((Text.cut? ';' line).map fun p => Text.trim p.2).getD []

/-- What the line of the header gives to the body. -/
def headerBody (line : List Char) : List String :=
  if behindSemicolon line = [] then [] else [String.ofList (behindSemicolon line)]

theorem takeHeader_eq (p : Parts) (line : List Char) :
    p.takeHeader line = ⟨some (String.ofList (headerOf line)), p.body ++ headerBody line, p.title⟩ := by
  unfold Parts.takeHeader headerOf headerBody behindSemicolon
  cases Text.cut? ';' line with
  | none => simp
  | some cut =>
    simp only [Option.map_some, Option.getD_some]
    split <;> simp [Parts.pushBody]

theorem header_takeHeader (p : Parts) (line : List Char) :
    (p.takeHeader line).header = some (String.ofList (headerOf line)) := by rw [takeHeader_eq]

theorem isStatementLine_iff {line : List Char} :
    isStatementLine line ↔ line ≠ [] ∧ ¬ commentMark <+: line := by
  simp [isStatementLine, commentMark, ← Text.startsWith_iff]

/-- A line that is no statement gives at most the title. -/
theorem take_other {line : List Char} (other : ¬ isStatementLine line) (p : Parts) :
    p.take line = { p with title := p.title <|> lineTitle? line } := by
  rw [isStatementLine_iff, not_and, not_not] at other
  by_cases blank : line = []
  · simp [Parts.take, lineTitle?, blank, commentMark, List.isPrefixOf?]
  · obtain ⟨comment, rfl⟩ := other blank
    rw [Parts.take, if_neg blank, lineTitle?, Text.isPrefixOf?_append]
    rfl

/-- What is no statement is no header. -/
theorem header_take_other {line : List Char} (other : ¬ isStatementLine line) (p : Parts) :
    (p.take line).header = p.header := by rw [take_other other]

theorem take_statementLine {line : List Char} (statement : isStatementLine line) (p : Parts) :
    p.take line = if p.header.isSome then p.pushBody line else p.takeHeader line :=
  take_of_statement p (isStatementLine_iff.1 statement).1 (isStatementLine_iff.1 statement).2

/-- A header stays. -/
theorem header_take_later {p : Parts} (some : p.header.isSome) (line : List Char) :
    (p.take line).header = p.header := by
  by_cases statement : isStatementLine line
  · rw [take_statementLine statement, if_pos some]
    rfl
  · exact header_take_other statement p

theorem header_foldl_later {p : Parts} (some : p.header.isSome) (ls : List (List Char)) :
    (ls.foldl Parts.take p).header = p.header := by
  induction ls generalizing p with
  | nil => rfl
  | cons line ls ih =>
    have same := header_take_later some line
    rw [List.foldl_cons, ih (same ▸ some), same]

/-- The first statement gives the header. -/
theorem header_foldl {p : Parts} (none : p.header = none) (ls : List (List Char)) :
    (ls.foldl Parts.take p).header =
      (ls.find? isStatementLine).map fun line => String.ofList (headerOf line) := by
  induction ls generalizing p with
  | nil => exact none
  | cons line ls ih =>
    rw [List.foldl_cons]
    by_cases statement : isStatementLine line
    · have taken : (p.take line).header = some (String.ofList (headerOf line)) := by
        rw [take_statementLine statement, none, if_neg (by simp), header_takeHeader]
      rw [header_foldl_later (by rw [taken]; rfl), taken, List.find?_cons_of_pos statement]
      rfl
    · have same := header_take_other statement p
      rw [ih (same.trans none), List.find?_cons_of_neg statement]

theorem map_snd_statementLines (text : String) :
    (statementLines text).map Prod.snd = (lines text).filter isStatementLine := by
  have numbered : ((List.range' 1 (lines text).length).zip (lines text)).map Prod.snd = lines text :=
    List.map_snd_zip (by simp)
  conv => rhs; rw [← numbered, List.filter_map]
  rfl

/-- The header of a source is that of the first statement line. -/
theorem map_header_ofText? (text : String) : (ofText? text).map (·.header) =
    (statementLines text).head?.map fun p => String.ofList (headerOf p.2) := by
  have first : (lines text).find? isStatementLine = (statementLines text).head?.map Prod.snd := by
    rw [← List.head?_filter, ← map_snd_statementLines, List.head?_map]
  have kept : (ofText? text).map (·.header) = (parts text).header := by
    cases header : (parts text).header <;> simp [ofText?, header]
  have found : (parts text).header = _ := header_foldl (p := .empty) rfl (lines text)
  rw [kept, found, first, Option.map_map]
  rfl

/-- A text is no source when it has no statement line. -/
theorem ofText?_eq_none_iff {text : String} : ofText? text = none ↔ statementLines text = [] := by
  have header := congrArg Option.isNone (map_header_ofText? text)
  rw [Option.isNone_map, Option.isNone_map] at header
  rw [← Option.isNone_iff_eq_none, header, Option.isNone_iff_eq_none, List.head?_eq_none_iff]

/-- No statement line starts with a blank. -/
theorem solid_statementLine {text : String} {p : Nat × List Char} (there : p ∈ statementLines text) :
    ∀ c ∈ p.2.head?, Text.isBlank c = false := by
  have among : p.2 ∈ (lines text).filter isStatementLine :=
    map_snd_statementLines text ▸ List.mem_map_of_mem there
  obtain ⟨line, -, same⟩ := List.mem_map.1 (List.mem_of_mem_filter among)
  rw [← same]
  exact fun c first => Text.not_isBlank_of_head?_trim first

/-! ### The word that declares a dialect -/

theorem not_mem_headerOf (line : List Char) : ';' ∉ headerOf line := by
  unfold headerOf
  cases cut : Text.cut? ';' line with
  | none =>
    have whole : line.takeWhile (· != ';') = line := by
      rw [← Text.getD_fst_cut?, cut]
      rfl
    intro within
    rw [← whole] at within
    simpa using List.mem_takeWhile_imp within
  | some p => exact fun h => Text.not_mem_of_cut? cut (Text.mem_of_mem_trim h)

/-- The header stands at the start of its line. -/
theorem headerOf_prefix {line : List Char} (solid : ∀ c ∈ line.head?, Text.isBlank c = false) :
    headerOf line <+: line := by
  unfold headerOf
  cases cut : Text.cut? ';' line with
  | none => exact List.prefix_refl line
  | some p =>
    obtain ⟨declaration, rest⟩ := p
    have whole := Text.cut?_eq_some cut
    have start : declaration <+: line := ⟨_, whole.symm⟩
    have first : ∀ c ∈ declaration.head?, Text.isBlank c = false := by
      intro c there
      exact solid c (by rw [whole, List.head?_append, there]; rfl)
    show Text.trim declaration <+: line
    rw [Text.trim, Text.trimLeft_eq_self first]
    exact (Text.trimRight_prefix declaration).trans start

/-- The keyword of a header stands at the start of the line. -/
theorem keyword?_prefix {line : List Char} (solid : ∀ c ∈ line.head?, Text.isBlank c = false)
    {word : String} (found : keyword? (String.ofList (headerOf line)) = some word) :
    word.toList <+: line := by
  have start := headerOf_prefix solid
  have whole := not_mem_headerOf line
  rw [keyword?, String.toList_ofList] at found
  cases header : headerOf line with
  | nil =>
    rw [header] at found
    cases found
  | cons c cs =>
    rw [header] at found start whole
    have first : c ∈ line.head? := by
      obtain ⟨rest, rfl⟩ := start
      rfl
    have separates : (Text.isBlank c || c == ';') = false := by
      have other : c ≠ ';' := fun same => whole (same ▸ List.mem_cons_self)
      simp [solid c first, other]
    rw [Text.head?_wordsBy separates] at found
    obtain rfl := Option.some.inj found
    rw [String.toList_ofList]
    exact (List.takeWhile_prefix _).trans start

end Source

namespace Dialect

open Validation (Declared)

/-- What the validator takes the source of a dialect for. -/
def declared : Dialect → Declared
  | .flowchart => .flowchart
  | .sequence => .sequence
  | .classes => .classes
  | .states => .states
  | .entities => .entities

/-- A keyword of a dialect at the start of a line, in any mixture of cases. -/
theorem ofLine?_of_keyword {d : Dialect} {keyword : String} (own : keyword ∈ d.keywords)
    {line : List Char} (start : (Text.lower keyword).toList <+: line.map Char.toLower) :
    Declared.ofLine? line = some d.declared := by
  obtain ⟨rest, same⟩ := start
  unfold Declared.ofLine?
  rw [← same]
  -- No keyword that is tried before starts the same way.
  cases d with
  | flowchart | classes | states =>
    simp only [keywords, List.mem_cons, List.not_mem_nil, or_false] at own
    rcases own with rfl | rfl <;> rfl
  | sequence | entities =>
    obtain rfl := List.mem_singleton.1 own
    rfl

/-- A header that declares a dialect for a registry declares it for the validator. -/
theorem ofLine?_of_declaredBy {d : Dialect} {line : List Char}
    (solid : ∀ c ∈ line.head?, Text.isBlank c = false)
    (declares : d.declaredBy (String.ofList (Source.headerOf line))) :
    Declared.ofLine? line = some d.declared := by
  unfold declaredBy at declares
  cases found : Source.keyword? (String.ofList (Source.headerOf line)) with
  | none =>
    rw [found] at declares
    cases declares
  | some word =>
    rw [found, List.any_eq_true] at declares
    obtain ⟨keyword, own, same⟩ := declares
    have same : Text.lower keyword = Text.lower word := of_decide_eq_true same
    apply ofLine?_of_keyword own
    rw [same, Text.lower, String.toList_ofList]
    exact (Source.keyword?_prefix solid found).map Char.toLower

end Dialect

/-! ### Letters of other alphabets -/

namespace Text

/-- A text and what it is when letters of every alphabet are put in lower case. What is not ASCII becomes
something that does not start with ASCII, with two exceptions: the Kelvin sign becomes a k, and the i with
a dot above becomes an i with the dot behind it. -/
inductive Folds : List Char → List Char → Prop where
  | nil : Folds [] []
  | ascii {c : Char} {cs ds : List Char} (small : c.toNat < 128) (rest : Folds cs ds) :
      Folds (c :: cs) (c.toLower :: ds)
  | other {c d : Char} {cs ds : List Char} (large : 128 ≤ c.toNat) (stays : 128 ≤ d.toNat)
      (more : List Char) (rest : Folds cs ds) : Folds (c :: cs) (d :: (more ++ ds))
  | kelvin {cs ds : List Char} (rest : Folds cs ds) : Folds ('\u212a' :: cs) ('k' :: ds)
  | dotted {cs ds : List Char} (rest : Folds cs ds) : Folds ('\u0130' :: cs) ('i' :: '\u0307' :: ds)

theorem toLower_of_large {c : Char} (large : 128 ≤ c.toNat) : c.toLower = c := by
  have beyond : ¬ c.val ≤ 90 := by
    rw [UInt32.le_iff_toNat_le]
    show ¬ c.toNat ≤ 90
    omega
  unfold Char.toLower
  split
  · next upper => exact absurd upper.2 beyond
  · rfl

theorem not_prefix_large {w d : Char} (small : w.toNat < 128) (large : 128 ≤ d.toNat)
    (word ds : List Char) : ¬ w :: word <+: d :: ds := by
  rw [List.cons_prefix_cons]
  rintro ⟨rfl, -⟩
  omega

/-- For a word of ASCII letters, without a k and not with an i at its end, it makes no difference whether
only the ASCII letters of a text are put in lower case. -/
theorem Folds.prefix_iff {cs ds : List Char} (folds : Folds cs ds) {word : List Char}
    (plain : ∀ c ∈ word, c.toNat < 128 ∧ c ≠ 'k') (ends : word.getLast? ≠ some 'i') :
    word <+: ds ↔ word <+: cs.map Char.toLower := by
  induction word generalizing cs ds with
  | nil => simp
  | cons w word ih =>
    rw [List.forall_mem_cons] at plain
    have after : word.getLast? ≠ some 'i' := fun last => ends (by rw [List.getLast?_cons, last]; rfl)
    -- A first character that is not ASCII stays what it is in the text whose ASCII letters alone are folded.
    have other {c : Char} (large : 128 ≤ c.toNat) (cs : List Char) :
        ¬ w :: word <+: (c :: cs).map Char.toLower := by
      rw [List.map_cons, toLower_of_large large]
      exact not_prefix_large plain.1.1 large _ _
    cases folds with
    | nil => rfl
    | ascii small rest =>
      rw [List.map_cons, List.cons_prefix_cons, List.cons_prefix_cons, ih rest plain.2 after]
    | other large stays more rest =>
      exact iff_of_false (not_prefix_large plain.1.1 stays _ _) (other large _)
    | kelvin rest =>
      refine iff_of_false (fun starts => ?_) (other (by decide) _)
      exact plain.1.2 (List.cons_prefix_cons.1 starts).1
    | dotted rest =>
      refine iff_of_false (fun starts => ?_) (other (by decide) _)
      obtain ⟨rfl, more⟩ := List.cons_prefix_cons.1 starts
      cases word with
      | nil => exact ends rfl
      | cons v word => exact not_prefix_large (plain.2 v List.mem_cons_self).1 (by decide) _ _ more

end Text

/-- The type that a line declares stays the same when letters of every alphabet are put in lower case. -/
theorem Validation.Declared.ofLine?_of_folds {line folded : List Char} (folds : Text.Folds line folded) :
    (Declared.keywords.find? fun p => Text.startsWith (Text.lower p.1).toList folded).map (·.2) =
      Declared.ofLine? line := by
  have plain : ∀ p ∈ Declared.keywords,
      ((Text.lower p.1).toList.all fun c => decide (c.toNat < 128 ∧ c ≠ 'k')) ∧
        (Text.lower p.1).toList.getLast? ≠ some 'i' := by decide +kernel
  have same : (Declared.keywords.filter fun p => Text.startsWith (Text.lower p.1).toList folded) =
      Declared.keywords.filter fun p =>
        Text.startsWith (Text.lower p.1).toList (line.map Char.toLower) := by
    apply List.filter_congr
    intro p there
    rw [Bool.eq_iff_iff, Text.startsWith_iff, Text.startsWith_iff]
    exact folds.prefix_iff (Text.forall_mem_of_all (plain p there).1) (plain p there).2
  rw [Declared.ofLine?, ← List.head?_filter, same, List.head?_filter]

namespace Validation

variable {rules : Rules} {text : String}

/-! ### What is reported -/

/-- What is said of brackets starts with a word of its own. -/
theorem Finding.message_unmatched (found : Char) (n : Nat) :
    "Unmatched".toList <+: (message (.unmatched found n)).toList := by
  have start : "Unmatched".toList <+: "Unmatched closing bracket '".toList := by decide
  show _ <+: ("Unmatched closing bracket '" ++ found.toString ++ "' at line " ++ toString n).toList
  rw [String.append_assoc, String.append_assoc, String.toList_append]
  exact start.trans (List.prefix_append _ _)

theorem Finding.message_unclosed (expected : Char) (n : Nat) :
    "Unclosed".toList <+: (message (.unclosed expected n)).toList := by
  have start : "Unclosed".toList <+: "Unclosed bracket opened at line ".toList := by decide
  show _ <+: ("Unclosed bracket opened at line " ++ toString n ++ ", expected '" ++
    expected.toString ++ "'").toList
  rw [String.append_assoc, String.append_assoc, String.append_assoc, String.toList_append]
  exact start.trans (List.prefix_append _ _)

theorem Finding.message_eq_emptyDiagram_iff {f : Finding} :
    f.message = "Empty diagram code" ↔ f = .emptyDiagram := by
  refine ⟨fun same => ?_, fun same => congrArg message same⟩
  cases f with
  | emptyDiagram => rfl
  | unknownType n =>
    have other : "Unknown or invalid diagram type" ≠ "Empty diagram code" := by decide
    exact absurd same other
  | unmatched found n => exact absurd (same ▸ message_unmatched found n) (by decide)
  | unclosed expected n => exact absurd (same ▸ message_unclosed expected n) (by decide)

theorem Finding.message_eq_unknownType_iff {f : Finding} :
    f.message = "Unknown or invalid diagram type" ↔ ∃ n, f = .unknownType n := by
  refine ⟨fun same => ?_, fun ⟨n, same⟩ => congrArg message same⟩
  cases f with
  | emptyDiagram =>
    have other : "Empty diagram code" ≠ "Unknown or invalid diagram type" := by decide
    exact absurd same other
  | unknownType n => exact ⟨n, rfl⟩
  | unmatched found n => exact absurd (same ▸ message_unmatched found n) (by decide)
  | unclosed expected n => exact absurd (same ▸ message_unclosed expected n) (by decide)

theorem bracketFindings_line (declared : Option Declared) (lines : List (Nat × List Char)) :
    ∀ f ∈ bracketFindings declared lines, (∃ c n, f = .unmatched c n) ∨ ∃ c n, f = .unclosed c n := by
  intro f there
  unfold bracketFindings at there
  rcases List.mem_append.1 there with h | h <;> obtain ⟨s, -, rfl⟩ := List.mem_map.1 h
  · exact .inl ⟨_, _, rfl⟩
  · exact .inr ⟨_, _, rfl⟩

/-- A text without a statement is reported as empty, and no other text is. -/
theorem emptyDiagram_mem_findings_iff (rules : Rules) (text : String) :
    .emptyDiagram ∈ (scan rules text).findings ↔ statementLines text = [] := by
  unfold scan
  cases statementLines text with
  | nil => simp
  | cons p body =>
    have brackets := bracketFindings_line (Declared.ofLine? p.2) (p :: body) .emptyDiagram
    simp only [List.mem_append, reduceCtorEq, iff_false, not_or]
    constructor
    · split <;> simp
    · intro there
      simpa using brackets there

/-- A text whose type is told is not reported as one of an unknown type. -/
theorem declared_eq_none_of_mem {n : Nat} (there : .unknownType n ∈ (scan rules text).findings) :
    (scan rules text).declared = none := by
  unfold scan at there ⊢
  cases lines : statementLines text with
  | nil => rfl
  | cons p body =>
    rw [lines] at there
    have brackets := bracketFindings_line (Declared.ofLine? p.2) (p :: body) (.unknownType n)
    rcases List.mem_append.1 there with unknown | other
    · dsimp only at unknown ⊢
      split at unknown
      · next none => exact Option.isNone_iff_eq_none.1 none
      · cases unknown
    · simpa using brackets other

theorem mem_errors_iff {message : String} :
    message ∈ (validate rules text).errors ↔ ∃ f ∈ (scan rules text).findings, f.message = message :=
  List.mem_map

theorem emptyDiagram_mem_errors_iff (rules : Rules) (text : String) :
    "Empty diagram code" ∈ (validate rules text).errors ↔ statementLines text = [] := by
  rw [mem_errors_iff, ← emptyDiagram_mem_findings_iff rules]
  simp [Finding.message_eq_emptyDiagram_iff]

theorem errors_eq_emptyDiagram_iff (rules : Rules) (text : String) :
    (validate rules text).errors = ["Empty diagram code"] ↔ statementLines text = [] := by
  constructor
  · intro only
    rw [← emptyDiagram_mem_errors_iff rules, only]
    exact List.mem_singleton_self _
  · intro none
    simp only [validate, Scan.report, scan, none]
    rfl

theorem unknownType_not_mem_errors {declared : Declared} (told : (scan rules text).declared = some declared) :
    "Unknown or invalid diagram type" ∉ (validate rules text).errors := by
  rw [mem_errors_iff]
  rintro ⟨f, there, same⟩
  obtain ⟨n, rfl⟩ := Finding.message_eq_unknownType_iff.1 same
  rw [declared_eq_none_of_mem there] at told
  cases told

end Validation

namespace Registry

open Validation (statementLines scan validate)

variable {r : Registry} {now : Instant} {text : String} {d : Diagram}

theorem dialectOf_eq_error {header : String} {e : Failure} (failed : r.dialectOf header = .error e) :
    ∃ found, e = .unknownDialect found := by
  unfold dialectOf at failed
  split at failed
  · cases failed
  · exact ⟨_, (Except.error.inj failed).symm⟩

/-- A text is refused as empty when it is no source. -/
theorem parse_eq_emptySource_iff :
    r.parse now text = .error .emptySource ↔ Source.ofText? text = none := by
  unfold parse
  cases Source.ofText? text with
  | none => simp [throw, throwThe, MonadExceptOf.throw]
  | some source =>
    cases declares : r.dialectOf source.header with
    | error e =>
      obtain ⟨found, rfl⟩ := dialectOf_eq_error declares
      simp [declares, bind, Except.bind]
    | ok t =>
      by_cases known : t ∈ r.readers <;>
        simp [declares, known, bind, Except.bind, pure, Except.pure, throw, throwThe, MonadExceptOf.throw]

theorem declaredBy_of_dialectOf {header : String} {t : Dialect} (declares : r.dialectOf header = .ok t) :
    t.declaredBy header := by
  unfold dialectOf at declares
  split at declares
  · next found =>
    obtain rfl := Except.ok.inj declares
    exact List.find?_some (p := (Dialect.declaredBy · header)) found
  · cases declares

/-- A text that is read is told to be of the dialect in which it is read. -/
theorem declared_of_parse (parsed : r.parse now text = .ok d) (rules : Validation.Rules) :
    (scan rules text).declared = some d.dialect.declared := by
  obtain ⟨source, t, taken, declares, -, rfl⟩ := parse_eq_ok_iff.1 parsed
  have header := Source.map_header_ofText? text
  rw [taken] at header
  unfold scan
  cases lines : statementLines text with
  | nil =>
    rw [lines] at header
    cases header
  | cons p body =>
    rw [lines] at header
    have same : source.header = String.ofList (Source.headerOf p.2) := Option.some.inj header
    have among : p ∈ statementLines text := lines ▸ List.mem_cons_self
    have declaredBy := declaredBy_of_dialectOf declares
    rw [same] at declaredBy
    exact Dialect.ofLine?_of_declaredBy (Source.solid_statementLine among) declaredBy

/-- Reading and validating agree on what a text is: on whether there is anything in it, and on the type
of what can be read. -/
theorem parse_agrees_validate (r : Registry) (now : Instant) (rules : Validation.Rules) (text : String) :
    (r.parse now text = .error .emptySource ↔
      (validate rules text).errors = ["Empty diagram code"]) ∧
    ∀ d, r.parse now text = .ok d →
      (validate rules text).typeName = some d.dialect.declared.name ∧
      "Empty diagram code" ∉ (validate rules text).errors ∧
      "Unknown or invalid diagram type" ∉ (validate rules text).errors := by
  refine ⟨?_, fun d parsed => ?_⟩
  · rw [parse_eq_emptySource_iff, Source.ofText?_eq_none_iff, Validation.errors_eq_emptyDiagram_iff]
  · have told := declared_of_parse parsed rules
    refine ⟨congrArg (Option.map Validation.Declared.name) told, ?_,
      Validation.unknownType_not_mem_errors told⟩
    obtain ⟨source, t, taken, -⟩ := parse_eq_ok_iff.1 parsed
    rw [Validation.emptyDiagram_mem_errors_iff, ← Source.ofText?_eq_none_iff, taken]
    exact Option.some_ne_none source

/-- A comment, a mixture of cases, a semicolon and a line break of two characters. -/
def mixed : String := "%% first\r\n\t STATEDiagram-V2;A --> B\r\nB --> C"

theorem parse_agrees_validate_mixed : ∃ d, parse .full .epoch mixed = .ok d ∧
    (validate .usual mixed).typeName = some "stateDiagram" ∧
    "Unknown or invalid diagram type" ∉ (validate .usual mixed).errors := by
  have taken : Source.ofText? mixed = some ⟨"STATEDiagram-V2", ["A --> B", "B --> C"], none⟩ := by
    decide +kernel
  have declares : (Registry.full).dialectOf "STATEDiagram-V2" = .ok .states := by decide +kernel
  obtain ⟨d, parsed, states, -⟩ := exists_parse .epoch taken declares
  have agrees := (parse_agrees_validate .full .epoch .usual mixed).2 d parsed
  rw [states] at agrees
  exact ⟨d, parsed, agrees.1, agrees.2.2⟩

end Registry
end DiagramText
