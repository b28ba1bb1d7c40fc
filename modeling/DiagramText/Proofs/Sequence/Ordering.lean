import DiagramText.Proofs.Sequence.Formatting
import DiagramText.Proofs.Sequence.Minutes

/-! Sequence diagrams whose numbers are arbitrary. Whatever numbers the messages and notes of a diagram
carry, or if they carry none, they are printed in the order of a stable sort; what is read of that
has them one after the other. -/
namespace DiagramText.Sequence

open Text (IsWord)

/-- What something has for its number, however large. -/
def numberOf : Option Json → Nat
  | some (.num (.int n)) => n.toNat
  | _ => 0

/-- The messages and notes of a graph by their numbers, however large. -/
def timeline (g : Graph) : List Step :=
  ((keptMessages g ++ keptNotes g).mergeSort fun a b => numberOf a.1 ≤ numberOf b.1).map (·.2)

/-- A step as it is shown: a note shows no id, and it stands left, right or across. -/
def Step.shown : Step → Step
  | .message source target kind label => .message source target kind label
  | .note _ placement participants text =>
    .note "" (some (Placement.ofText placement).text) participants text

/-- A participant as it is shown: as an actor or not. -/
def Member.shown (m : Member) : Member := { m with role := some (Role.ofKeyword m.role).keyword }

/-- A text that stays what it is on a line of its own. -/
structure IsPlain (text : String) : Prop where
  tight : Text.trimmed text = text
  whole : '\r' ∉ text.toList ∧ '\n' ∉ text.toList

instance (text : String) : Decidable (IsPlain text) :=
  decidable_of_iff (Text.trimmed text = text ∧ '\r' ∉ text.toList ∧ '\n' ∉ text.toList)
    ⟨fun h => ⟨h.1, h.2⟩, fun h => ⟨h.tight, h.whole⟩⟩

/-- A diagram that makes sense as a sequence: messages and notes join participants only, all texts stay
what they are, and nobody has the id of a note. Nothing is asked of the numbers. -/
structure IsScript (g : Graph) : Prop where
  keyed : g.Keyed
  cast : ∀ e ∈ present g, IsWord e.id ∧ e.label ≠ "" ∧ IsPlain e.label
  free : ∀ e ∈ present g, ∀ n, e.id ≠ noteName n
  messages : ∀ c ∈ g.connections.values,
    c.source ∈ (present g).map (·.id) ∧ c.target ∈ (present g).map (·.id) ∧
      (Arrow.ofKey? c.kind).isSome ∧ IsPlain c.label
  notes : ∀ e ∈ notes g, e.listed participantsKey ≠ [] ∧
    (∀ id ∈ e.listed participantsKey, id ∈ (present g).map (·.id)) ∧ IsPlain e.label

/-! ### Steps told again -/

/-- What a step of a script is: the same without its number. -/
def Step.IsPlain (cast : List String) : Step → Prop
  | .message source target kind label => source ∈ cast ∧ target ∈ cast ∧
      (∃ a : Arrow, kind = a.key) ∧ Sequence.IsPlain label
  | .note _ _ participants text =>
    participants ≠ [] ∧ (∀ id ∈ participants, id ∈ cast) ∧ Sequence.IsPlain text

/-- A step as it comes out after those before it. -/
def Step.after (before : List Step) : Step → Step
  | .message source target kind label => .message source target kind label
  | .note _ placement participants text => .note (noteName ((noteIds before).length + 1))
      (some (Placement.ofText placement).text) participants text

theorem IsPlain.oneLine {text : String} (plain : IsPlain text) : Text.oneLine text = text :=
  Text.oneLine_eq_self plain.whole.1 plain.whole.2

section Steps

variable {cast : List String} {steps : List Step} {s : Step}

theorem record_statement (plain : s.IsPlain cast) (before : List Step) :
    record before s.statement = before ++ [s.after before] := by
  cases s with
  | message source target kind label =>
    obtain ⟨-, -, ⟨a, rfl⟩, text⟩ := plain
    simp only [Step.statement, record, Step.after, Arrow.ofKey_key, getD_nonEmpty, text.oneLine]
  | note id placement participants text =>
    simp only [Step.statement, record, Step.after, plain.2.2.oneLine]

theorem statement_after (plain : s.IsPlain cast) (before : List Step) :
    (s.after before).statement = s.statement := by
  cases s with
  | message => rfl
  | note id placement participants text =>
    simp only [Step.statement, Step.after, Placement.ofText_text]

theorem text?_after (s : Step) (before : List Step) : (s.after before).text? = s.text? := by
  cases s with
  | message => rfl
  | note id placement participants text =>
    cases participants <;> simp [Step.text?, Step.after, Placement.ofText_text]

theorem shown_after (s : Step) (before : List Step) : (s.after before).shown = s.shown := by
  cases s with
  | message => rfl
  | note id placement participants text => simp [Step.shown, Step.after, Placement.ofText_text]

/-- Told as statements, the steps come out one after the other. -/
theorem map_minutes {β : Type} {f : Step → β} (plain : ∀ s ∈ steps, s.IsPlain cast)
    (same : ∀ s ∈ steps, ∀ before, f (s.after before) = f s) :
    (minutes (steps.map Step.statement)).map f = steps.map f := by
  induction steps using List.reverseRecOn with
  | nil => rfl
  | append_singleton before s ih =>
    rw [List.forall_mem_append, List.forall_mem_singleton] at plain same
    rw [List.map_append, List.map_singleton, minutes_concat, record_statement plain.2, List.map_append,
      ih plain.1 same.1, List.map_singleton, same.2, List.map_append, List.map_singleton]

/-- Among those who take part, every step finds its place after those before it. -/
theorem told_minutes {cast : List Member} (known : ∀ m ∈ cast, IsWord m.id ∧ ∀ n, m.id ≠ noteName n)
    (plain : ∀ s ∈ steps, s.IsPlain (cast.map (·.id))) :
    Told cast (minutes (steps.map Step.statement)) := by
  have word : ∀ id ∈ cast.map (·.id), IsWord id := List.forall_mem_map.2 fun m there => (known m there).1
  induction steps using List.reverseRecOn with
  | nil => exact .nil
  | append_singleton before s ih =>
    rw [List.forall_mem_append, List.forall_mem_singleton] at plain
    rw [List.map_append, List.map_singleton, minutes_concat, record_statement plain.2]
    refine .snoc (ih plain.1) ?_
    have free := noteName_next_not_mem (before.map Step.statement)
    have named : cast.map (·.id) ⊆ Story.names ⟨cast, minutes (before.map Step.statement)⟩ :=
      List.subset_append_left ..
    cases s with
    | message source target kind label =>
      obtain ⟨there, there', arrow, text⟩ := plain.2
      exact ⟨⟨word _ there, named there⟩, ⟨word _ there', named there'⟩, arrow, text.tight⟩
    | note id placement participants text =>
      obtain ⟨some, there, text⟩ := plain.2
      refine ⟨⟨rfl, ?_⟩, ⟨_, rfl⟩, ⟨some, fun i h => ⟨word i (there i h), named (there i h)⟩⟩,
        text.tight⟩
      rw [Story.names, List.mem_append, not_or]
      refine ⟨fun taken => ?_, free⟩
      obtain ⟨m, among, same⟩ := List.mem_map.1 taken
      exact (known m among).2 _ same

theorem names_subset_cast (plain : s.IsPlain cast) : ∀ id ∈ s.statement.names, id ∈ cast := by
  cases s with
  | message source target kind label =>
    simp only [Step.statement, Statement.names, List.forall_mem_cons]
    exact ⟨plain.1, plain.2.1, List.forall_mem_nil _⟩
  | note id placement participants text => exact plain.2.1

end Steps

/-! ### Scripts -/

/-- The story of a diagram as its lines tell it. -/
def retold (g : Graph) : Story :=
  ⟨(present g).map fun e => (memberOf e).shown, minutes ((story g).steps.map Step.statement)⟩

variable {g : Graph}

theorem map_id_retold (g : Graph) : (retold g).cast.map (·.id) = (present g).map (·.id) := by
  rw [retold, List.map_map]
  rfl

namespace IsScript

variable (script : IsScript g)

include script

theorem isPlain_steps : ∀ s ∈ (story g).steps, s.IsPlain ((present g).map (·.id)) := by
  rw [story, List.forall_mem_map]
  intro p there
  rw [(numbered_perm g).mem_iff, counted, List.mem_append] at there
  rcases there with message | note
  · obtain ⟨c, among, rfl⟩ := List.mem_map.1 message
    obtain ⟨source, target, known, text⟩ := script.messages c among
    obtain ⟨a, found⟩ := Option.isSome_iff_exists.1 known
    have key : a.key = c.kind := by simpa using List.find?_some found
    exact ⟨source, target, ⟨a, key.symm⟩, text⟩
  · obtain ⟨e, among, rfl⟩ := List.mem_map.1 note
    exact script.notes e among

theorem isSound_retold : (retold g).IsSound where
  cast := by
    rw [retold, List.forall_mem_map]
    intro e there
    obtain ⟨word, some, text⟩ := script.cast e there
    exact ⟨word, ⟨_, rfl⟩, some, text.tight⟩
  distinct := by
    have apart : (g.elements.values.map (·.id)).Nodup := by
      rw [← keys_eq_map_id script.keyed]
      exact g.elements.nodup
    rw [map_id_retold]
    exact apart.sublist (List.filter_sublist.map _)
  told := by
    apply told_minutes
    · rw [retold, List.forall_mem_map]
      exact fun e there => ⟨(script.cast e there).1, script.free e there⟩
    · rw [map_id_retold]
      exact script.isPlain_steps

theorem statement_steps_retold : (retold g).steps.map Step.statement = (story g).steps.map Step.statement :=
  map_minutes script.isPlain_steps fun s there before => statement_after (script.isPlain_steps s there) before

/-- A retelling says what the diagram says. -/
theorem statements_retold : (retold g).statements = (story g).statements := by
  have cast : ∀ e : Element, (memberOf e).shown.statement = (memberOf e).statement := by
    intro e
    rw [Member.statement, Member.shown, Role.ofKeyword_keyword]
    rfl
  rw [Story.statements, Story.statements, script.statement_steps_retold, retold, List.map_map, story]
  simp only [Function.comp_def, cast, List.map_map]

theorem lines_retold : (retold g).lines = (story g).lines := by
  have cast : ∀ e : Element, (memberOf e).shown.text = (memberOf e).text := by
    intro e
    rw [Member.text, Member.shown, Role.ofKeyword_keyword]
    rfl
  have steps := congrArg (List.filterMap id)
    (map_minutes script.isPlain_steps (f := Step.text?) fun s _ before => text?_after s before)
  rw [List.filterMap_map, List.filterMap_map, Function.id_comp] at steps
  rw [Story.lines, Story.lines, retold, steps, story, List.map_map, List.map_map]
  simp only [Function.comp_def, cast]

/-- Nobody has the id of a note. -/
theorem notesFree : NotesFree (retold g).statements := by
  have known : ∀ id ∈ (present g).map (·.id), ∀ n, id ≠ noteName n :=
    List.forall_mem_map.2 script.free
  apply notesFree_of_names
  intro id named
  apply known
  rw [script.statements_retold, Story.statements, List.flatMap_append, List.mem_append] at named
  rcases named with cast | step
  · obtain ⟨s, among, own⟩ := List.mem_flatMap.1 cast
    obtain ⟨m, there, rfl⟩ := List.mem_map.1 among
    obtain ⟨e, inside, rfl⟩ := List.mem_map.1 there
    exact List.mem_map.2 ⟨e, inside, (List.mem_singleton.1 own).symm⟩
  · obtain ⟨s, among, named⟩ := List.mem_flatMap.1 step
    obtain ⟨s, there, rfl⟩ := List.mem_map.1 among
    exact names_subset_cast (script.isPlain_steps s there) id named

/-- The minutes of what a diagram says are the steps of its retelling. -/
theorem minutes_retold : minutes (retold g).statements = (retold g).steps := by
  have none : minutes ((story g).cast.map Member.statement) = [] := by
    rw [← List.length_eq_zero_iff, length_minutes, Story.countP_members]
  rw [script.statements_retold, Story.statements, minutes, List.foldl_append, ← minutes, none]
  rfl

end IsScript

/-! ### Read again -/

theorem timeline_eq {steps : List Step} (messages : keptMessages g = messagesIn steps)
    (notes : keptNotes g = notesIn steps) : timeline g = steps := by
  have perm : (keptMessages g ++ keptNotes g).Perm (enumerate steps) := by
    rw [messages, notes]
    exact List.perm_append_comm.trans (List.filter_append_perm _ _)
  have rising : (enumerate steps).Pairwise fun a b => numberOf a.1 < numberOf b.1 := by
    have numbers : (enumerate steps).map (fun p => numberOf p.1) = List.range' 1 steps.length := by
      rw [enumerate, List.map_map]
      exact List.zipIdx_map_snd 1 steps
    rw [← List.pairwise_map (f := fun p : Option Json × Step => numberOf p.1) (R := (· < ·)), numbers]
    exact List.pairwise_lt_range'
  -- The numbers rise, so that a sort by them has no choice.
  rw [timeline, mergeSort_eq_of_perm perm rising, enumerate, List.map_map]
  exact List.zipIdx_map_fst 1 steps

namespace Draft

variable {now : Instant} {d : Draft}

theorem ensureAll_of_hasElement {ids : List String} (there : ∀ id ∈ ids, g.hasElement id) :
    ids.foldl (ensure now) g = g := by
  induction ids with
  | nil => rfl
  | cons id ids ih =>
    rw [List.forall_mem_cons] at there
    rw [List.foldl_cons, ensure, Graph.ensure, if_pos there.1, ih there.2]

/-- A step among those who are there brings nobody in. -/
theorem present_apply {s : Statement} (isStep : s.isStep) (there : ∀ id ∈ s.names, d.graph.hasElement id) :
    present (d.apply now s).graph = present d.graph := by
  cases s with
  | participant => exact absurd isStep Bool.false_ne_true
  | message source target arrow label =>
    have same : [source, target].foldl (ensure now) d.graph = d.graph := ensureAll_of_hasElement there
    exact (present_connect ..).trans (congrArg present same)
  | note placement participants text =>
    have same : participants.foldl (ensure now) d.graph = d.graph := ensureAll_of_hasElement there
    rw [apply, same, Graph.addElement]
    split
    · rfl
    · next free =>
      rw [Graph.hasElement_iff] at free
      rw [present, Table.values_insert_of_not_mem free, List.filter_append]
      exact List.append_nil _

theorem present_foldl {statements : List Statement} (steps : ∀ s ∈ statements, s.isStep)
    (there : ∀ s ∈ statements, ∀ id ∈ s.names, d.graph.hasElement id) :
    present (statements.foldl (apply now) d).graph = present d.graph := by
  induction statements generalizing d with
  | nil => rfl
  | cons s statements ih =>
    rw [List.forall_mem_cons] at steps there
    have grown := growth_apply now d s
    rw [List.foldl_cons, ih steps.2 fun t among id named => grown.hasElement (there.2 t among id named),
      present_apply steps.1 there.1]

end Draft

theorem isStep_statement (s : Step) : s.statement.isStep := by cases s <;> rfl

/-- Those who are declared take part, in their order and as they are shown; the steps bring in nobody. -/
theorem IsScript.present_read (script : IsScript g) (later : Instant) {lines : List String}
    (said : statementsOf lines = (retold g).statements) :
    (present (read later lines)).map memberOf = (retold g).cast := by
  have sound := script.isSound_retold
  let cast := (retold g).cast.map Member.statement
  let declared := cast.foldl (Draft.apply later) .empty
  have keyed : declared.graph.Keyed := (Draft.minuted_empty.foldl later cast).keyed
  have flat : (retold g).cast.map Member.flat = (retold g).cast := by
    rw [retold, List.map_map]
    apply List.map_congr_left
    intro e there
    have plain := (script.cast e there).2.2.oneLine
    simp only [Function.comp_apply, Member.flat, Member.shown, memberOf, plain]
  have told : story declared.graph = ⟨(retold g).cast, []⟩ := by
    have retelling := @Story.foldl_tell_cast [] (retold g).cast sound.cast (by simpa using sound.distinct)
    rw [Draft.story_foldl Draft.counted_empty, story_empty]
    · exact retelling.trans (by rw [List.nil_append, flat])
    · rw [Story.countP_members]
      exact Nat.zero_le _
  have known : ∀ id ∈ (present g).map (·.id), declared.graph.hasElement id := by
    rw [← map_id_retold]
    intro id there
    rw [← mem_names_story keyed, told]
    exact List.mem_append_left _ there
  have steps : ∀ s ∈ (retold g).steps.map Step.statement, s.isStep :=
    List.forall_mem_map.2 fun s _ => isStep_statement s
  have among : ∀ s ∈ (retold g).steps.map Step.statement, ∀ id ∈ s.names, declared.graph.hasElement id := by
    rw [script.statement_steps_retold, List.forall_mem_map]
    exact fun s there id named => known id (names_subset_cast (script.isPlain_steps s there) id named)
  rw [read, Draft.foldl_readLine, said, Story.statements, List.foldl_append]
  exact (congrArg (List.map memberOf) (Draft.present_foldl steps among)).trans (congrArg Story.cast told)

/-- A sequence diagram that makes sense is printed to source that has its messages and notes in the order
of a stable sort by their numbers, whatever these are, and it has the same participants. Within the range of
a word the source is printed again as it was. -/
theorem parse_print_in_order (later : Instant) {d : Diagram} (sequence : d.dialect = .sequence)
    (script : IsScript d.toGraph) : ∃ d', parse later (DiagramText.print d) = .ok d' ∧
      d'.dialect = .sequence ∧
      (timeline d'.toGraph).map Step.shown = (numbered d.toGraph).map (fun p => p.2.shown) ∧
      (present d'.toGraph).map memberOf = (present d.toGraph).map (fun e => (memberOf e).shown) ∧
      ((numbered d.toGraph).length ≤ Json.maxWord → DiagramText.print d' = DiagramText.print d) := by
  have sound := script.isSound_retold
  obtain ⟨d', parsed, dialect, graph, again⟩ :=
    exists_parse_print later sequence sound script.lines_retold.symm
  have said := statements_lines sound .usual
  have minuted := minuted_read later (((retold d.toGraph).lines.map (Layout.usual.indented 1)).map Text.trimmed)
  rw [said] at minuted
  have messages := minuted.messages
  have notes := minuted.keptNotes_eq_iff.2 script.notesFree
  rw [script.minutes_retold] at messages notes
  refine ⟨d', parsed, dialect, ?_, ?_, fun few => again ?_⟩
  · have steps := map_minutes script.isPlain_steps (f := Step.shown) fun s _ before => shown_after s before
    have ordered : timeline (read later _) = (retold d.toGraph).steps := timeline_eq messages notes
    rw [graph, ordered]
    refine steps.trans ?_
    rw [story, List.map_map]
    rfl
  · rw [graph]
    exact script.present_read later said
  · have length : (retold d.toGraph).steps.length = (numbered d.toGraph).length := by
      have same := congrArg List.length script.statement_steps_retold
      simpa [story] using same
    rw [graph, story_read_lines later sound (length ▸ few) .usual, lines_flat sound]

/-- A note that comes first under an unusual id, and messages with a number that is missing, negative,
repeated or no number at all. -/
def shuffled : Diagram := .ofGraph .sequence
  ⟨⟨[("see below", (Element.create .epoch "see below" .note "look: A->>B").setProperty participantsKey
        (.ofStrings ["B", "A"]) |>.setProperty orderKey (.ofNat 2)),
      ("A", .node .epoch "A" "Alice"), ("B", .node .epoch "B" "actor B")], by decide⟩,
    ⟨[("late", { Connection.create .epoch "late" "A" "B" "sync" with label := "no number" }),
      ("minus", { Connection.create .epoch "minus" "B" "A" "cross" with
        properties := .ofList [(orderKey, .num (.int (-1)))] }),
      ("two", { Connection.create .epoch "two" "A" "A" "dotted" with
        properties := .ofList [(orderKey, .ofNat 2)] }),
      ("one", { Connection.create .epoch "one" "B" "A" "async" with
        properties := .ofList [(orderKey, .ofNat 1)] }),
      ("text", { Connection.create .epoch "text" "A" "B" "solid" with
        properties := .ofList [(orderKey, .str "1")] })], by decide⟩⟩ (.create .epoch)

theorem ne_noteName {id : String} (other : ¬ "note_".toList <+: id.toList) (n : Nat) : id ≠ noteName n := by
  rintro rfl
  rw [noteName, String.toList_append] at other
  exact other (List.prefix_append ..)

theorem isScript_shuffled : IsScript shuffled.toGraph where
  keyed := ⟨by decide, by decide⟩
  cast := by decide
  free := by
    have others : ∀ e ∈ present shuffled.toGraph, ¬ "note_".toList <+: e.id.toList := by decide
    exact fun e there => ne_noteName (others e there)
  messages := by decide
  notes := by decide

theorem parse_print_in_order_shuffled : IsScript shuffled.toGraph ∧
    ∃ d', parse .epoch (DiagramText.print shuffled) = .ok d' ∧ d'.dialect = .sequence ∧
      (timeline d'.toGraph).map Step.shown = (numbered shuffled.toGraph).map (fun p => p.2.shown) ∧
      (present d'.toGraph).map memberOf = (present shuffled.toGraph).map (fun e => (memberOf e).shown) ∧
      ((numbered shuffled.toGraph).length ≤ Json.maxWord → DiagramText.print d' = DiagramText.print shuffled) :=
  ⟨isScript_shuffled, parse_print_in_order .epoch rfl isScript_shuffled⟩

end DiagramText.Sequence
