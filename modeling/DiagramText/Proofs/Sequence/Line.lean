import DiagramText.Proofs.Reader.Results
import DiagramText.Proofs.Sequence.Story
import DiagramText.Proofs.Source

/-! The lines of sequence source. Whatever line is read, the statement is sound; and what is printed
of a participant, a message or a note is read back as its statement. Keywords do no harm at the front
of an id, since no blank follows them there. -/
namespace DiagramText.Sequence

open Reader (Reads Refuses Stops Yields)
open Text (IsWord)

/-! ### What is read -/

theorem yields_participant : Yields participant Statement.IsSound :=
  (Reader.yields_any Role.reader).bind fun _ _ => (Reader.yields_any _).bind fun _ _ =>
    Reader.yields_identifier.bind fun _ word =>
      yields_shownAs.optional.bind fun _ each =>
        (Reader.yields_any _).bind fun _ _ => (Reader.yields_any _).bind fun _ _ =>
          Reader.yields_pure ⟨word, Reader.forall_mem_bind_nonEmpty each⟩
where
  yields_shownAs : Yields shownAs fun label => Text.trimmed label = label :=
    (Reader.yields_any _).bind fun _ _ => (Reader.yields_any _).bind fun _ _ =>
      (Reader.yields_any _).bind fun _ _ => Reader.yields_restTrimmed

theorem yields_note : Yields note Statement.IsSound :=
  (Reader.yields_any (Reader.oneOf _)).bind fun _ _ => (Reader.yields_any _).bind fun _ _ =>
    (Reader.yields_any Placement.reader).bind fun _ _ => (Reader.yields_any _).bind fun _ _ =>
      (Reader.yields_identifier.sepBy1 comma).bind fun _ words =>
        (Reader.yields_any _).bind fun _ _ => (Reader.yields_any _).bind fun _ _ =>
          Reader.yields_restTrimmed.bind fun _ tight =>
            Reader.yields_pure ⟨words.1, words.2, tight⟩

theorem yields_message : Yields message Statement.IsSound :=
  Reader.yields_identifier.bind fun _ word => (Reader.yields_any _).bind fun _ _ =>
    (Reader.yields_any Arrow.reader).bind fun _ _ => (Reader.yields_any _).bind fun _ _ =>
      Reader.yields_identifier.bind fun _ word' => Reader.yields_colonLabel.bind fun _ each =>
        (Reader.yields_any _).bind fun _ _ =>
          Reader.yields_pure ⟨word, word', fun l h => (each l h).2⟩

theorem isSound_of_ofText? {cs : List Char} {s : Statement} (read : Statement.ofText? cs = some s) :
    s.IsSound := by
  have yields : Yields statement Statement.IsSound := by
    apply Reader.yields_firstOf
    simp only [List.mem_cons, List.not_mem_nil, or_false, forall_eq_or_imp, forall_eq]
    exact ⟨yields_participant, yields_note, yields_message⟩
  exact yields.whole? read

/-! ### What a line says -/

/-- A line that starts with a word and is read as a statement. -/
structure Says (line : String) (s : Statement) : Prop where
  first : ∃ c cs, line.toList = c :: cs ∧ Text.isWordChar c
  unbroken : '\n' ∉ line.toList
  reads : Reads statement (Text.trim line.toList) s []

namespace Says

variable {line : String} {s : Statement}

theorem isStatement (said : Says line s) : Source.IsStatement line.toList := by
  obtain ⟨c, cs, split, word⟩ := said.first
  obtain ⟨ds, trim⟩ := Text.trim_cons (Text.not_isBlank_of_isWordChar word) cs
  refine ⟨said.unbroken, ?_, ?_⟩ <;> rw [split, trim]
  · exact List.cons_ne_nil c ds
  · intro comment
    obtain ⟨rfl, -⟩ := List.cons_prefix_cons.1 comment
    exact absurd word (by decide)

/-- Indented and taken apart again, a line still says the same. -/
theorem ofText?_trimmed (said : Says line s) (layout : Layout) (depth : Nat) :
    Statement.ofText? (Text.trimmed (layout.indented depth line)).toList = some s := by
  rw [Statement.ofText?, Text.toList_trimmed, Text.trim_trim, Source.trim_indented]
  exact Reader.whole?_of_reads said.reads

end Says

variable {id source target text label : String} {rest : List Char}

/-! ### Tokens -/

theorem reads_role (r : Role) (rest : List Char) :
    Reads Role.reader (r.keyword.toList ++ rest) r rest := by
  have earlier : ∀ b ∈ [Role.participant, .actor].takeWhile (· ≠ r),
      b.keyword.toList.head?.any fun c => r.keyword.toList.head?.any (c != ·) := by
    cases r <;> decide
  refine Reader.reads_oneOf_map ?_ fun b h => Text.not_prefix_of_first (earlier b h)
  cases r <;> decide

theorem reads_placement (p : Placement) (rest : List Char) :
    Reads Placement.reader (p.text.toList ++ rest) p rest := by
  have earlier : ∀ q ∈ [Placement.leftOf, .rightOf, .across].takeWhile (· ≠ p),
      q.text.toList.head?.any fun c => p.text.toList.head?.any (c != ·) := by
    cases p <;> decide
  refine Reader.reads_oneOf_map ?_ fun b h => Text.not_prefix_of_first (earlier b h)
  cases p <;> decide

/-- An arrow that is tried earlier is another one at its start, or goes on with a `>`. -/
theorem Arrow.earlier (a : Arrow) : ∀ b ∈ all.takeWhile (· ≠ a),
    ¬ b.token.toList <+: a.token.toList ∧ (a.token.toList <+: b.token.toList →
      (b.token.toList.drop a.token.toList.length).head? = some '>') := by
  cases a <;> decide

/-- No arrow is taken for another when a word follows it. -/
theorem reads_arrow (a : Arrow) (word : IsWord target) (rest : List Char) :
    Reads Arrow.reader (a.token.toList ++ (target.toList ++ rest)) a (target.toList ++ rest) := by
  refine Reader.reads_oneOf_map (by cases a <;> decide) fun b h => ?_
  obtain ⟨out, next⟩ := a.earlier b h
  cases split : target.toList with
  | nil => exact absurd split word.some
  | cons c cs =>
    apply Text.not_prefix_append out
    intro starts same
    rw [next starts] at same
    obtain rfl := Option.some.inj same
    exact absurd (word.chars '>' (by simp [split])) (by decide)

/-! ### Participants -/

theorem reads_shownAs (tight : Text.trimmed text = text) :
    Reads shownAs (' ' :: ("as".toList ++ ' ' :: text.toList)) text [] :=
  (Reader.reads_space1 (Reader.stops_append (by decide) _)).bind ((Reader.reads_token "as" _).bind
    ((Reader.reads_space1 (Reader.stops_tight tight)).bind (Reader.reads_tight tight)))

theorem reads_participant (r : Role) (word : IsWord id) {rest : List Char} {label : Option String}
    (stops : Stops Text.isWordChar rest)
    (shown : Reads (optional shownAs) rest label []) :
    Reads participant (r.keyword.toList ++ ' ' :: (id.toList ++ rest))
      (.participant id (label.bind Reader.nonEmpty) r) [] :=
  (reads_role r _).bind ((Reader.reads_space1 (word.stops rest)).bind
    ((Reader.reads_identifier word stops).bind (shown.bind
      ((Reader.reads_noBlanks (by simp)).bind (Reader.reads_atEnd.bind (Reads.pure _ []))))))

/-! ### Notes -/

theorem toList_intercalate_comma (id : String) (ids : List String) :
    (",".intercalate (id :: ids)).toList = id.toList ++ ids.flatMap fun id => ',' :: id.toList :=
  Text.toList_intercalate_cons "," id ids

theorem reads_comma (word : IsWord id) (rest : List Char) :
    Reads comma (',' :: (id.toList ++ rest)) () (id.toList ++ rest) :=
  ((Reader.reads_noBlanks (by simp; decide)).seqRight
    (Reader.reads_token_char rfl _)).seqRight (Reader.reads_noBlanks (word.stops rest))

/-- Names with commas between are read one by one, up to what is neither word nor comma. -/
theorem reads_names {ids : List String} (some : ids ≠ []) (words : ∀ id ∈ ids, IsWord id) (rest : List Char) :
    Reads (Reader.sepBy1 Reader.identifier comma) ((",".intercalate ids).toList ++ ':' :: rest) ids
      (':' :: rest) := by
  cases ids with
  | nil => exact absurd rfl some
  | cons id ids =>
    rw [List.forall_mem_cons] at words
    have noComma : ¬ ",".toList <+: [':'] ++ rest := Text.not_prefix_of_first (by decide)
    have stop : Refuses (comma *> Reader.identifier) (':' :: rest) :=
      (((Reader.reads_noBlanks (by simp; decide)).refuses_seqRight
        (Reader.refuses_token noComma)).seqRight _).seqRight _
    have colon : Stops Text.isWordChar (':' :: rest) := by simp; decide
    have each : ∀ name ∈ ids, ∀ more, Stops Text.isWordChar more →
        Reads (comma *> Reader.identifier) (',' :: name.toList ++ more) name more ∧
          Stops Text.isWordChar (',' :: name.toList ++ more) :=
      fun name h more stops =>
        ⟨(reads_comma (words.2 name h) more).seqRight (Reader.reads_identifier (words.2 name h) stops),
          by simp; decide⟩
    have others := Reader.reads_many each (fun _ _ => List.cons_ne_nil _ _) colon stop
    have first : Stops Text.isWordChar (ids.flatMap (fun id => ',' :: id.toList) ++ ':' :: rest) := by
      cases ids with
      | nil => exact colon
      | cons next ids => simp; decide
    rw [toList_intercalate_comma, List.append_assoc]
    exact (Reader.reads_identifier words.1 first).bind (others.bind (Reads.pure (id :: ids) _))

theorem reads_note (p : Placement) {ids : List String} (some : ids ≠ []) (words : ∀ id ∈ ids, IsWord id)
    (tail : List Char) :
    Reads note ("Note".toList ++ ' ' :: (p.text.toList ++ ' ' ::
      ((",".intercalate ids).toList ++ ':' :: tail)))
      (.note p ids (String.ofList (Text.trim tail))) [] := by
  have keyword (rest : List Char) :
      Reads (Reader.oneOf [("Note", ()), ("note", ())]) ("Note".toList ++ rest) () rest :=
    ((Reader.reads_token "Note" rest).seqRight (Reads.pure () rest)).orElse
  have placed (rest : List Char) : Stops Text.isInlineBlank (p.text.toList ++ rest) :=
    Reader.stops_append (by cases p <;> decide) rest
  have names : Stops Text.isInlineBlank ((",".intercalate ids).toList ++ ':' :: tail) := by
    cases ids with
    | nil => exact absurd rfl some
    | cons id ids =>
      rw [toList_intercalate_comma, List.append_assoc]
      exact (words id (List.mem_cons_self ..)).stops _
  exact (keyword _).bind ((Reader.reads_space1 (placed _)).bind ((reads_placement p _).bind
    ((Reader.reads_space1 names).bind ((reads_names some words tail).bind
      ((Reader.reads_noBlanks (by simp; decide)).bind ((Reader.reads_token_char rfl tail).bind
        ((Reader.reads_restTrimmed tail).bind (Reads.pure _ []))))))))

/-! ### Messages -/

theorem stops_token {p : Char → Bool} (a : Arrow) (dash : p '-' = false) (rest : List Char) :
    Stops p (a.token.toList ++ rest) :=
  Reader.stops_append (by cases a <;> simp [Arrow.token, dash]) rest

theorem reads_message (a : Arrow) (word : IsWord source) (word' : IsWord target)
    (stops : Stops Text.isWordChar rest) {label : Option String}
    (labelled : Reads Reader.colonLabel rest label []) :
    Reads message (source.toList ++ (a.token.toList ++ (target.toList ++ rest)))
      (.message source target a label) [] := (Reader.reads_identifier word (stops_token a (by decide) _)).bind
    ((Reader.reads_noBlanks (stops_token a (by decide) _)).bind ((reads_arrow a word' rest).bind
      ((Reader.reads_noBlanks (word'.stops rest)).bind ((Reader.reads_identifier word' stops).bind
        (labelled.bind (Reader.reads_atEnd.bind (Reads.pure _ [])))))))

/-! ### Statements -/

theorem reads_statement_message {s : Statement} (word : IsWord source)
    (stops : Stops Text.isWordChar rest) (tight : Stops Text.isInlineBlank rest)
    (read : Reads message (source.toList ++ rest) s []) :
    Reads statement (source.toList ++ rest) s [] := by
  have noParticipant : Refuses participant (source.toList ++ rest) :=
    Reader.refuses_keyword (by decide) word stops tight
  have noNote : Refuses note (source.toList ++ rest) := Reader.refuses_keyword (by decide) word stops tight
  exact noParticipant.orElse (noNote.orElse read.orElse)

theorem reads_statement_note {s : Statement} (read : Reads note ("Note".toList ++ rest) s []) :
    Reads statement ("Note".toList ++ rest) s [] := by
  have noRole : ∀ p ∈ [Role.participant, .actor].map fun r => (r.keyword, r),
      p.1.toList.head?.any fun c => "Note".toList.head?.any (c != ·) := by decide
  have noParticipant : Refuses participant ("Note".toList ++ rest) :=
    (Reader.refuses_oneOf fun p h => Text.not_prefix_of_first (noRole p h)).bind _
  exact noParticipant.orElse read.orElse

/-! ### The lines -/

theorem isWord_keyword (r : Role) : IsWord r.keyword := by cases r <;> decide

theorem unbroken_token (a : Arrow) : '\n' ∉ a.token.toList := by cases a <;> decide

theorem says_of_reads {line : String} {s : Statement} (word : IsWord id)
    (split : line.toList = id.toList ++ rest) (unbroken : '\n' ∉ rest)
    (reads : Reads statement (Text.trim line.toList) s []) : Says line s where
  first := by
    rw [split]
    exact word.first rest
  unbroken := by
    rw [split, List.mem_append, not_or]
    exact ⟨word.unbroken, unbroken⟩
  reads := reads

theorem Member.IsSound.filled {m : Member} (sound : m.IsSound) : Text.oneLine m.label ≠ "" := by
  rw [Ne, Text.oneLine_eq_empty_iff sound.tight, Text.isBlankText_of_trimmed sound.tight]
  exact sound.some

theorem says_member {m : Member} (sound : m.IsSound) : Says m.text m.statement := by
  obtain ⟨r, role⟩ := sound.role
  have keyword := isWord_keyword r
  rw [Member.text, Member.statement, role, Role.ofKeyword_keyword]
  split
  · have split : (r.keyword ++ " " ++ m.id).toList = r.keyword.toList ++ ([' '] ++ m.id.toList) := by simp
    refine says_of_reads keyword split ?_ ?_
    · simpa using sound.word.unbroken
    · rw [split, keyword.trim_append _ sound.word.some (Text.trim_of_trimmed sound.word.trimmed)]
      have none : Reads (optional shownAs) [] none [] :=
        ((Reader.refuses_inlineBlanks1 (by simp)).bind _).optional
      have read := reads_participant r sound.word (by simp) none
      rw [List.append_nil] at read
      exact read.orElse
  · have tight := Text.trimmed_oneLine sound.tight
    have filled := sound.filled
    have split : (r.keyword ++ " " ++ m.id ++ " as " ++ Text.oneLine m.label).toList =
        r.keyword.toList ++ (' ' :: (m.id.toList ++ " as ".toList) ++
          (Text.oneLine m.label).toList) := by simp
    refine says_of_reads keyword split ?_ ?_
    · simpa using ⟨sound.word.unbroken, Text.not_mem_singleLine m.label.toList⟩
    · have some : (Text.oneLine m.label).toList ≠ [] := mt String.toList_eq_nil_iff.1 filled
      rw [split, keyword.trim_append _ some (Text.trim_of_trimmed tight)]
      have read := reads_participant r sound.word (by simp; decide) (reads_shownAs tight).optional
      have kept : Reader.nonEmpty (Text.oneLine m.label) = .some (Text.oneLine m.label) := if_neg filled
      rw [Option.bind_some, kept] at read
      have whole : Reads statement _ _ [] := read.orElse
      simpa using whole

theorem says_message {a : Arrow} (word : IsWord source) (word' : IsWord target)
    (tight : Text.trimmed label = label) {line : String}
    (printed : Step.text? (.message source target a.key label) = some line) :
    Says line (Step.statement (.message source target a.key label)) := by
  simp only [Step.text?, Arrow.ofKey_key, Option.some.injEq] at printed
  rw [Step.statement, Arrow.ofKey_key]
  subst printed
  have blank := Text.oneLine_eq_empty_iff tight
  split
  · next none =>
    have split : (source ++ a.token ++ target).toList =
        source.toList ++ (a.token.toList ++ target.toList) := by simp
    refine says_of_reads word split ?_ ?_
    · simpa using ⟨unbroken_token a, word'.unbroken⟩
    · rw [split, word.trim_append _ word'.some (Text.trim_of_trimmed word'.trimmed), blank.2 none]
      have read := reads_message a word word' (by simp) Reader.reads_colonLabel_none
      rw [List.append_nil] at read
      exact reads_statement_message word (stops_token a (by decide) _) (stops_token a (by decide) _) read
  · next labelled =>
    have filled : (Text.oneLine label).toList ≠ [] :=
      mt String.toList_eq_nil_iff.1 (mt blank.1 labelled)
    have shown := Text.trimmed_oneLine tight
    have split : (source ++ a.token ++ target ++ ": " ++ Text.oneLine label).toList =
        source.toList ++ ((a.token.toList ++ (target.toList ++ [':', ' '])) ++
          (Text.oneLine label).toList) := by simp
    refine says_of_reads word split ?_ ?_
    · simpa using ⟨unbroken_token a, word'.unbroken, Text.not_mem_singleLine label.toList⟩
    · rw [split, word.trim_append _ filled (Text.trim_of_trimmed shown)]
      have read := reads_message a word word' (by simp; decide) (Reader.reads_colonLabel shown)
      have whole := reads_statement_message word (stops_token a (by decide) _)
        (stops_token a (by decide) _) read
      simpa using whole

/-- Names with commas between have nothing but the characters of words, and commas. -/
theorem forall_mem_names {ids : List String} (words : ∀ id ∈ ids, IsWord id) :
    ∀ c ∈ (",".intercalate ids).toList, c = ',' ∨ Text.isWordChar c := by
  cases ids with
  | nil => simp
  | cons id ids =>
    rw [List.forall_mem_cons] at words
    rw [toList_intercalate_comma, List.forall_mem_append]
    refine ⟨fun c h => .inr (words.1.chars c h), fun c h => ?_⟩
    obtain ⟨other, there, inside⟩ := List.mem_flatMap.1 h
    exact (List.mem_cons.1 inside).imp_right ((words.2 other there).chars c)

theorem unbroken_names {ids : List String} (words : ∀ id ∈ ids, IsWord id) :
    '\n' ∉ (",".intercalate ids).toList :=
  fun h => absurd (forall_mem_names words _ h) (by decide)

/-- A note without a text ends at the colon once it is trimmed. -/
theorem trim_note (between : List Char) (tight : Text.trimmed text = text) :
    ∃ tail, Text.trim ("Note".toList ++ (between ++ ':' :: ' ' :: text.toList)) =
        "Note".toList ++ (between ++ ':' :: tail) ∧ Text.trim tail = text.toList := by
  have keyword : IsWord "Note" := by decide
  have space : ∀ c ∈ [' '], Text.isBlank c := Text.forall_mem_of_all rfl
  by_cases none : text.toList = []
  · refine ⟨[], ?_, by rw [none]; rfl⟩
    have split : "Note".toList ++ (between ++ ':' :: ' ' :: text.toList) =
        ("Note".toList ++ (between ++ [':'])) ++ [' '] := by simp [none]
    rw [split, Text.trim_append_right space,
      keyword.trim_append between (List.cons_ne_nil _ _) (by decide)]
  · refine ⟨' ' :: text.toList, ?_, ?_⟩
    · have whole := keyword.trim_append (between ++ [':', ' ']) none (Text.trim_of_trimmed tight)
      simpa using whole
    · exact (Text.trim_append_left space _).trans (Text.trim_of_trimmed tight)

theorem says_note {name : String} (p : Placement) {ids : List String} (some : ids ≠ [])
    (words : ∀ id ∈ ids, IsWord id) (tight : Text.trimmed text = text) {line : String}
    (printed : Step.text? (.note name p.text ids text) = .some line) :
    Says line (Step.statement (.note name p.text ids text)) := by
  have keyword : IsWord "Note" := by decide
  have shown := Text.trimmed_oneLine tight
  have same : line = "Note " ++ p.text ++ " " ++ ",".intercalate ids ++ ": " ++ Text.oneLine text := by
    cases ids with
    | nil => exact absurd rfl some
    | cons id ids =>
      simp only [Step.text?, Placement.ofText_text, Option.some.injEq] at printed
      exact printed.symm
  have split : line.toList = "Note".toList ++ ((' ' :: (p.text.toList ++ ' ' ::
      (",".intercalate ids).toList)) ++ ':' :: ' ' :: (Text.oneLine text).toList) := by simp [same]
  obtain ⟨tail, trim, taken⟩ := trim_note (' ' :: (p.text.toList ++ ' ' ::
      (",".intercalate ids).toList)) shown
  refine says_of_reads keyword split ?_ ?_
  · have placed : '\n' ∉ p.text.toList := by cases p <;> decide
    simpa [placed, Text.not_mem_singleLine] using unbroken_names words
  · have read := reads_note p some words tail
    rw [taken, String.ofList_toList] at read
    rw [split, trim, Step.statement, Placement.ofText_text]
    simpa using reads_statement_note read

/-- The line of a step that may happen says the step. -/
theorem says_step {t : Story} {s : Step} (fits : s.Fits t) :
    ∃ line, s.text? = some line ∧ Says line s.statement := by
  cases s with
  | message source target kind label =>
    obtain ⟨⟨word, -⟩, ⟨word', -⟩, ⟨a, rfl⟩, tight⟩ := fits
    exact ⟨_, rfl, says_message word word' tight rfl⟩
  | note name placement participants text =>
    obtain ⟨-, ⟨p, rfl⟩, ⟨some, among⟩, tight⟩ := fits
    cases participants with
    | nil => exact absurd rfl some
    | cons id ids => exact ⟨_, rfl, says_note p some (fun i h => (among i h).1) tight rfl⟩

end DiagramText.Sequence
