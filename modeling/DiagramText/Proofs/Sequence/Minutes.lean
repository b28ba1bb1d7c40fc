import DiagramText.Proofs.Sequence.Telling
import Mathlib.Data.List.Induction

/-! The minutes of a sequence diagram: its messages and notes one after the other, as the statements
have them. A diagram that is read keeps every message under its number. A note is kept as long as
its id is free; a participant may have taken it, and then no later note gets past that one. -/
namespace DiagramText.Sequence

open DiagramText.Graph (Keyed Numbered)

/-- The id of the `n`th note. -/
def noteName (n : Nat) : String := "note_" ++ toString n

def Statement.isNote : Statement → Bool
  | .note .. => true
  | .participant .. | .message .. => false

/-- Whom a statement names. -/
def Statement.names : Statement → List String
  | .participant id _ _ => [id]
  | .message source target _ _ => [source, target]
  | .note _ participants _ => participants

def Step.isNote (s : Step) : Bool := s.noteId?.isSome

/-- What a statement adds to the minutes. A declaration that names a note gives it another text. -/
def record (steps : List Step) : Statement → List Step
  | .participant id label _ => steps.map (Step.relabel id label)
  | .message source target arrow label =>
    steps ++ [.message source target arrow.key (label.getD "")]
  | .note placement participants text =>
    steps ++ [.note (noteName ((noteIds steps).length + 1)) (some placement.text) participants text]

def minutes (statements : List Statement) : List Step := statements.foldl record []

/-- Steps under the numbers from one on. -/
def enumerate (steps : List Step) : List (Option Json × Step) :=
  (steps.zipIdx 1).map fun p => (some (.ofNat p.2), p.1)

/-- The messages among some steps, with their numbers. -/
def messagesIn (steps : List Step) : List (Option Json × Step) :=
  (enumerate steps).filter fun p => !p.2.isNote

/-- The notes among some steps, with their numbers. -/
def notesIn (steps : List Step) : List (Option Json × Step) :=
  (enumerate steps).filter fun p => p.2.isNote

/-- The messages of a graph, each with what it has for its number. -/
def keptMessages (g : Graph) : List (Option Json × Step) :=
  g.connections.values.map fun c => (c.properties.get? orderKey, (messageOf c).2)

/-- The notes of a graph, each with what it has for its number. -/
def keptNotes (g : Graph) : List (Option Json × Step) :=
  (notes g).map fun e => (e.properties.get? orderKey, (noteOf e).2)

/-- Nobody that is named up to a note has the id that the note gets. -/
def NotesFree (statements : List Statement) : Prop :=
  ∀ before s after, statements = before ++ s :: after → s.isNote →
    noteName (before.countP Statement.isNote + 1) ∉ (before ++ [s]).flatMap Statement.names

theorem noteName_injective {m n : Nat} (h : noteName m = noteName n) : m = n := by
  have same : (noteName m).toList = (noteName n).toList := congrArg _ h
  simp only [noteName, String.toList_append, List.append_cancel_left_eq,
    Nat.toString_eq_ofList_toDigits, String.toList_ofList] at same
  rw [← Nat.ofDigitChars_ten_toDigits (n := m), same, Nat.ofDigitChars_ten_toDigits]

/-! ### Taking the minutes -/

theorem minutes_concat (before : List Statement) (s : Statement) :
    minutes (before ++ [s]) = record (minutes before) s := by
  rw [minutes, List.foldl_append, List.foldl_cons, List.foldl_nil, ← minutes]

theorem length_noteIds (steps : List Step) : (noteIds steps).length = steps.countP Step.isNote :=
  List.length_filterMap_eq_countP

theorem isNote_relabel (name : String) (label : Option String) (s : Step) :
    (s.relabel name label).isNote = s.isNote := by rw [Step.isNote, noteId?_relabel, ← Step.isNote]

theorem noteIds_record (steps : List Step) (s : Statement) : noteIds (record steps s) =
    noteIds steps ++ if s.isNote then [noteName ((noteIds steps).length + 1)] else [] := by
  cases s with
  | participant id label role =>
    rw [record, noteIds_map (noteId?_relabel id label)]
    exact (List.append_nil _).symm
  | message source target arrow label => exact noteIds_append ..
  | note placement participants text => exact noteIds_append ..

/-- The notes in the minutes have their ids in order. -/
theorem noteIds_minutes (statements : List Statement) : noteIds (minutes statements) =
    (List.range' 1 (statements.countP Statement.isNote)).map noteName := by
  induction statements using List.reverseRecOn with
  | nil => rfl
  | append_singleton before s ih =>
    rw [minutes_concat, noteIds_record, ih, List.countP_append, List.countP_singleton, List.length_map,
      List.length_range']
    split
    · rw [List.range'_concat, List.map_append, Nat.one_mul, Nat.add_comm 1]
      rfl
    · exact List.append_nil _

theorem noteName_next_not_mem (statements : List Statement) :
    noteName ((noteIds (minutes statements)).length + 1) ∉ noteIds (minutes statements) := by
  rw [noteIds_minutes, List.length_map, List.length_range']
  intro taken
  obtain ⟨n, among, same⟩ := List.mem_map.1 taken
  have := noteName_injective same
  rw [List.mem_range'_1] at among
  omega

/-- Every note that is said is in the minutes. -/
theorem countP_minutes (statements : List Statement) :
    (minutes statements).countP Step.isNote = statements.countP Statement.isNote := by
  rw [← length_noteIds, noteIds_minutes, List.length_map, List.length_range']

theorem length_record (steps : List Step) (s : Statement) :
    (record steps s).length = steps.length + if s.isStep then 1 else 0 := by
  cases s <;> simp [record, Statement.isStep]

/-- Every message and every note that is said is in the minutes. -/
theorem length_minutes (statements : List Statement) :
    (minutes statements).length = statements.countP Statement.isStep := by
  induction statements using List.reverseRecOn with
  | nil => rfl
  | append_singleton before s ih =>
    rw [minutes_concat, length_record, ih, List.countP_append, List.countP_singleton]

theorem enumerate_concat (steps : List Step) (s : Step) :
    enumerate (steps ++ [s]) = enumerate steps ++ [(some (.ofNat (steps.length + 1)), s)] := by
  rw [enumerate, List.zipIdx_append, List.map_append, enumerate, Nat.add_comm]
  rfl

theorem enumerate_map (f : Step → Step) (steps : List Step) :
    enumerate (steps.map f) = (enumerate steps).map fun p => (p.1, f p.2) := by
  simp [enumerate, List.zipIdx_map, Function.comp_def]

theorem notesFree_concat {before : List Statement} {s : Statement} :
    NotesFree (before ++ [s]) ↔ NotesFree before ∧ (s.isNote →
      noteName (before.countP Statement.isNote + 1) ∉ (before ++ [s]).flatMap Statement.names) := by
  constructor
  · intro free
    refine ⟨fun first t rest same note => ?_, fun note => free before s [] rfl note⟩
    apply free first t (rest ++ [s]) _ note
    rw [same, List.append_assoc, List.cons_append]
  · rintro ⟨free, last⟩ first t rest same note
    rcases List.eq_nil_or_concat rest with rfl | ⟨rest', t', rfl⟩
    · obtain ⟨rfl, ends⟩ := List.append_inj' same rfl
      obtain rfl : s = t := by simpa using ends
      exact last note
    · rw [List.concat_eq_append, ← List.cons_append, ← List.append_assoc] at same
      exact free first t rest' (List.append_inj' same rfl).1 note

theorem notesFree_of_names {statements : List Statement}
    (apart : ∀ id ∈ statements.flatMap Statement.names, ∀ n, id ≠ noteName n) : NotesFree statements := by
  intro before s after same _ taken
  refine apart (noteName (before.countP Statement.isNote + 1)) ?_ _ rfl
  rw [same, List.append_cons, List.flatMap_append]
  exact List.mem_append_left _ taken

/-! ### Messages and notes apart -/

theorem messagesIn_relabel (steps : List Step) (name : String) (label : Option String) :
    messagesIn (steps.map (Step.relabel name label)) = messagesIn steps := by
  have messages : ∀ p ∈ messagesIn steps, (p.1, p.2.relabel name label) = p := by
    intro p there
    obtain ⟨n, s⟩ := p
    cases s with
    | message => rfl
    | note => exact absurd (List.mem_filter.1 there).2 Bool.false_ne_true
  rw [messagesIn, enumerate_map, List.filter_map]
  simp only [Function.comp_def, isNote_relabel]
  exact (List.map_congr_left messages).trans (List.map_id _)

theorem notesIn_relabel (steps : List Step) (name : String) (label : Option String) :
    notesIn (steps.map (Step.relabel name label)) =
      (notesIn steps).map fun p => (p.1, p.2.relabel name label) := by
  rw [notesIn, enumerate_map, List.filter_map]
  simp only [Function.comp_def, isNote_relabel]
  rfl

theorem messagesIn_concat (steps : List Step) (s : Step) : messagesIn (steps ++ [s]) =
    messagesIn steps ++ if s.isNote then [] else [(some (.ofNat (steps.length + 1)), s)] := by
  rw [messagesIn, enumerate_concat, List.filter_append, ← messagesIn, List.filter_singleton]
  cases s.isNote <;> rfl

theorem notesIn_concat (steps : List Step) (s : Step) : notesIn (steps ++ [s]) =
    notesIn steps ++ if s.isNote then [(some (.ofNat (steps.length + 1)), s)] else [] := by
  rw [notesIn, enumerate_concat, List.filter_append, ← notesIn, List.filter_singleton]
  cases s.isNote <;> rfl

theorem length_notesIn (steps : List Step) : (notesIn steps).length = steps.countP Step.isNote := by
  rw [notesIn, ← List.countP_eq_length_filter, enumerate, List.countP_map]
  have firsts : (steps.zipIdx 1).map Prod.fst = steps := List.zipIdx_map_fst 1 steps
  conv => rhs; rw [← firsts, List.countP_map]
  rfl

namespace Draft

variable {now : Instant} {g : Graph}

/-! ### What a graph keeps -/

theorem keptNotes_ensureAll (now : Instant) (g : Graph) (ids : List String) :
    keptNotes (ids.foldl (ensure now) g) = keptNotes g := by
  induction ids generalizing g with
  | nil => rfl
  | cons id ids ih => rw [List.foldl_cons, ih, keptNotes, notes_ensure, ← keptNotes]

theorem connections_ensureAll (now : Instant) (g : Graph) (ids : List String) :
    (ids.foldl (ensure now) g).connections = g.connections := by
  induction ids generalizing g with
  | nil => rfl
  | cons id ids ih => rw [List.foldl_cons, ih, connections_ensure]

theorem hasElement_ensureAll_iff (now : Instant) (ids : List String) {id : String} :
    (ids.foldl (ensure now) g).hasElement id ↔ g.hasElement id ∨ id ∈ ids := by
  induction ids generalizing g with
  | nil => simp
  | cons i ids ih =>
    rw [List.foldl_cons, ih, ensure, Graph.hasElement_ensure_iff, List.mem_cons, or_assoc]

/-- A declaration gives a note that it names another text, and leaves it its number. -/
theorem keptNotes_rename (keyed : Keyed g) (name : String) (label : Option String) (role : Role) :
    keptNotes (g.modifyElement name (recast label role)) =
      (keptNotes g).map fun p => (p.1, p.2.relabel name label) := by
  have same : notes (g.modifyElement name (recast label role)) =
      (notes g).map (renamed name label role) := filter_rename keyed name label role (· = .note)
  have apart : orderKey ≠ roleKey := by decide
  rw [keptNotes, same, keptNotes, List.map_map, List.map_map]
  apply List.map_congr_left
  intro e _
  have order : (renamed name label role e).properties.get? orderKey = e.properties.get? orderKey := by
    unfold renamed
    split
    · simp [recast, Element.setProperty, Table.get?_insert, apart]
    · rfl
  simp only [Function.comp_apply, noteOf_renamed, order]

theorem keptMessages_connect (numbered : Numbered g) (now : Instant) (source target kind label : String)
    (order : Json) :
    keptMessages (g.connect now source target kind label [(orderKey, order)]) =
      keptMessages g ++ [(some order, .message source target kind label)] := by
  have links := numbered.entries_connect now source target kind label [(orderKey, order)]
  rw [keptMessages, Table.values, links, List.map_append, List.map_append, keptMessages, Table.values]
  simp [messageOf, Graph.linkAs, Connection.create, Table.ofList, Table.get?_insert]

theorem noteStep_newNote (now : Instant) (g : Graph) (n : Nat) (placement : Placement)
    (participants : List String) (text : String) :
    ((newNote now g n placement participants text).properties.get? orderKey,
      (noteOf (newNote now g n placement participants text)).2) =
    (some (.ofNat n), .note (noteName (noteCount g + 1)) (some placement.text) participants text) := by
  have apart : placementKey ≠ orderKey ∧ placementKey ≠ participantsKey := by decide
  have apart' : participantsKey ≠ orderKey := by decide
  simp [noteOf, newNote, Element.create, Element.setProperty, Element.moveTo, Element.property?,
    Element.listed, Table.get?_insert, apart, apart', Json.string?, noteName]

theorem noteCount_eq (g : Graph) : noteCount g = (keptNotes g).length := by
  rw [keptNotes, List.length_map]
  rfl

theorem keptNotes_addElement {note : Element} (isNote : note.kind = .note)
    (free : ¬g.hasElement note.id) : keptNotes (g.addElement note) =
      keptNotes g ++ [(note.properties.get? orderKey, (noteOf note).2)] := by
  have values : (g.addElement note).elements.values = g.elements.values ++ [note] := by
    rw [Graph.addElement, if_neg free]
    rw [Graph.hasElement_iff] at free
    exact Table.values_insert_of_not_mem free _
  rw [keptNotes, notes, values, List.filter_append, List.map_append, keptNotes, notes]
  simp [isNote]

theorem keptMessages_addElement (g : Graph) (e : Element) :
    keptMessages (g.addElement e) = keptMessages g := by
  unfold Graph.addElement
  split <;> rfl

/-! ### A statement more -/

/-- A draft that has taken some statements. As soon as the id of the next note is taken, the draft
is stuck with the notes that it has. -/
structure Minuted (said : List Statement) (d : Draft) : Prop where
  keyed : Keyed d.graph
  links : Numbered d.graph
  steps : d.steps = (minutes said).length
  messages : keptMessages d.graph = messagesIn (minutes said)
  notes : keptNotes d.graph <+: notesIn (minutes said)
  names : ∀ id, d.graph.hasElement id ↔
    id ∈ said.flatMap Statement.names ∨ ∃ n, n < noteCount d.graph ∧ id = noteName (n + 1)
  stuck : noteCount d.graph < said.countP Statement.isNote →
    d.graph.hasElement (noteName (noteCount d.graph + 1))
  free : noteCount d.graph = said.countP Statement.isNote ↔ NotesFree said

theorem minuted_empty : Minuted [] .empty where
  keyed := Graph.keyed_empty
  links := Graph.numbered_empty
  steps := rfl
  messages := rfl
  notes := List.prefix_refl _
  names := by simp [empty, Graph.empty, Graph.hasElement_iff, Table.keys, noteCount, Table.values]
  stuck few := absurd few (Nat.not_lt_zero _)
  free := by
    refine ⟨fun _ before s after same => ?_, fun _ => rfl⟩
    simp at same

variable {said : List Statement} {d d' : Draft} {s : Statement}

theorem Minuted.noteCount_le (minuted : Minuted said d) :
    noteCount d.graph ≤ said.countP Statement.isNote := by
  rw [noteCount_eq, ← countP_minutes, ← length_notesIn]
  exact minuted.notes.length_le

theorem Minuted.keptNotes_eq_iff (minuted : Minuted said d) :
    keptNotes d.graph = notesIn (minutes said) ↔ NotesFree said := by
  rw [← minuted.free, noteCount_eq, ← countP_minutes, ← length_notesIn]
  exact ⟨congrArg List.length, minuted.notes.eq_of_length⟩

/-- The id of the next note is taken if and only if somebody with that name came in. -/
theorem Minuted.hasElement_next (minuted : Minuted said d) :
    d.graph.hasElement (noteName (noteCount d.graph + 1)) ↔
      noteName (noteCount d.graph + 1) ∈ said.flatMap Statement.names := by
  rw [minuted.names]
  refine ⟨fun there => there.resolve_right ?_, .inl⟩
  rintro ⟨n, few, same⟩
  have := noteName_injective same
  omega

theorem flatMap_names_concat {id : String} : id ∈ (said ++ [s]).flatMap Statement.names ↔
    id ∈ said.flatMap Statement.names ∨ id ∈ s.names := by
  rw [List.flatMap_append, List.flatMap_singleton, List.mem_append]

/-- A statement that leaves no further note: it is none, or the id that it gets is taken. -/
theorem Minuted.unnoted (minuted : Minuted said d) (grown : Graph.Growth d.graph d'.graph)
    (steps : d'.steps = (minutes (said ++ [s])).length)
    (messages : keptMessages d'.graph = messagesIn (minutes (said ++ [s])))
    (notes : keptNotes d'.graph <+: notesIn (minutes (said ++ [s])))
    (count : noteCount d'.graph = noteCount d.graph)
    (names : ∀ id, d'.graph.hasElement id ↔ d.graph.hasElement id ∨ id ∈ s.names)
    (taken : s.isNote → d'.graph.hasElement (noteName (noteCount d.graph + 1))) :
    Minuted (said ++ [s]) d' := by
  have named : ∀ id, d'.graph.hasElement id ↔ id ∈ (said ++ [s]).flatMap Statement.names ∨
      ∃ n, n < noteCount d'.graph ∧ id = noteName (n + 1) := by
    intro id
    rw [names, minuted.names, flatMap_names_concat, count, or_right_comm]
  have bounded := minuted.noteCount_le
  refine ⟨grown.keyed minuted.keyed, grown.numbered minuted.links, steps, messages, notes, named, ?_, ?_⟩
  · rw [count, List.countP_append, List.countP_singleton]
    intro few
    by_cases note : s.isNote
    · exact taken note
    · rw [if_neg note] at few
      exact (names _).2 (.inl (minuted.stuck few))
  · rw [count, List.countP_append, List.countP_singleton, notesFree_concat, ← minuted.free]
    by_cases note : s.isNote
    · rw [if_pos note]
      refine ⟨fun more => absurd more (by omega), fun ⟨all, out⟩ => ?_⟩
      have there := (names _).1 (taken note)
      rw [minuted.hasElement_next, ← flatMap_names_concat, all] at there
      exact absurd there (out note)
    · rw [if_neg note, Nat.add_zero]
      exact ⟨fun all => ⟨all, fun isNote => absurd isNote note⟩, And.left⟩

theorem Minuted.participant (minuted : Minuted said d) (id : String) (label : Option String)
    (role : Role) : Minuted (said ++ [.participant id label role]) (d.apply now (.participant id label role)) := by
  have keyed := keyed_ensure now minuted.keyed id
  have kept : keptNotes (ensure now d.graph id) = keptNotes d.graph := by
    rw [keptNotes, notes_ensure, ← keptNotes]
  have renamed := keptNotes_rename keyed id label role
  rw [kept] at renamed
  refine minuted.unnoted (s := .participant id label role) (growth_apply now d _) ?_ ?_ ?_ ?_ ?_ ?_
  · rw [minutes_concat, record, List.length_map]
    exact minuted.steps
  · rw [minutes_concat, record, messagesIn_relabel, ← minuted.messages, apply_participant, keptMessages,
      Graph.modifyElement, connections_ensure, ← keptMessages]
  · rw [minutes_concat, record, notesIn_relabel, apply_participant, renamed]
    exact minuted.notes.map _
  · rw [noteCount_eq, apply_participant, renamed, List.length_map, ← noteCount_eq]
  · intro other
    rw [apply_participant, Graph.hasElement_modifyElement, ensure, Graph.hasElement_ensure_iff,
      Statement.names, List.mem_singleton]
  · exact fun note => absurd note Bool.false_ne_true

theorem Minuted.message (minuted : Minuted said d) (source target : String) (arrow : Arrow)
    (label : Option String) :
    Minuted (said ++ [.message source target arrow label]) (d.apply now (.message source target arrow label)) := by
  let ends := [source, target].foldl (ensure now) d.graph
  have links : Numbered ends := (growth_ensureAll now d.graph _).numbered minuted.links
  have added := keptMessages_connect links now source target arrow.key (label.getD "") (.ofNat (d.steps + 1))
  have before : keptMessages ends = keptMessages d.graph := by
    rw [keptMessages, connections_ensureAll, ← keptMessages]
  have kept : keptNotes ends = keptNotes d.graph := keptNotes_ensureAll now d.graph _
  refine minuted.unnoted (s := .message source target arrow label) (growth_apply now d _) ?_ ?_ ?_ ?_ ?_ ?_
  · rw [length_minutes, List.countP_append, ← length_minutes, ← minuted.steps]
    rfl
  · rw [minutes_concat, record, messagesIn_concat, ← minuted.messages, ← before, ← minuted.steps]
    exact added
  · rw [minutes_concat, record, notesIn_concat]
    simp only [Step.isNote, Step.noteId?, Option.isSome_none, Bool.false_eq_true, if_false, List.append_nil]
    exact kept ▸ minuted.notes
  · rw [noteCount_eq, noteCount_eq, ← kept]
    rfl
  · intro id
    exact hasElement_ensureAll_iff now [source, target]
  · exact fun note => absurd note Bool.false_ne_true

/-- A note whose id is free is kept, and none before it was lost. -/
theorem Minuted.noted (minuted : Minuted said d) {placement : Placement} {participants : List String}
    {text : String}
    (free : ¬(participants.foldl (ensure now) d.graph).hasElement (noteName (noteCount d.graph + 1))) :
    Minuted (said ++ [.note placement participants text]) (d.apply now (.note placement participants text)) := by
  let there := participants.foldl (ensure now) d.graph
  let note := newNote now there (d.steps + 1) placement participants text
  have kept : keptNotes there = keptNotes d.graph := keptNotes_ensureAll now d.graph _
  have same : noteCount there = noteCount d.graph := by rw [noteCount_eq, kept, ← noteCount_eq]
  have named : note.id = noteName (noteCount d.graph + 1) := by
    rw [← same]
    rfl
  have added : keptNotes (there.addElement note) = _ := keptNotes_addElement rfl (named ▸ free)
  rw [noteStep_newNote, kept, same] at added
  have all : noteCount d.graph = said.countP Statement.isNote := by
    refine Nat.le_antisymm minuted.noteCount_le (Nat.le_of_not_lt fun few => free ?_)
    exact (growth_ensureAll now d.graph participants).hasElement (minuted.stuck few)
  have whole : keptNotes d.graph = notesIn (minutes said) := by
    apply minuted.notes.eq_of_length
    rw [← noteCount_eq, all, length_notesIn, countP_minutes]
  have more : noteCount (there.addElement note) = noteCount d.graph + 1 := by
    rw [noteCount_eq, added, List.length_append, ← noteCount_eq]
    rfl
  have total : (said ++ [Statement.note placement participants text]).countP Statement.isNote =
      noteCount (there.addElement note) := by
    rw [more, all, List.countP_append]
    rfl
  have grown := growth_apply now d (.note placement participants text)
  refine ⟨grown.keyed minuted.keyed, grown.numbered minuted.links, ?_, ?_, ?_, ?_, ?_, ?_⟩
  · rw [length_minutes, List.countP_append, ← length_minutes, ← minuted.steps]
    rfl
  · rw [minutes_concat, record, messagesIn_concat, ← minuted.messages, apply, keptMessages_addElement,
      keptMessages, connections_ensureAll]
    exact (List.append_nil _).symm
  · rw [minutes_concat, record, notesIn_concat, length_noteIds, countP_minutes, ← all, ← minuted.steps,
      ← whole]
    exact added ▸ List.prefix_refl _
  · intro id
    rw [apply, Graph.hasElement_addElement_iff, hasElement_ensureAll_iff, minuted.names, more, named,
      flatMap_names_concat, Statement.names, Nat.exists_lt_succ_right]
    grind
  · exact fun few => absurd total (Nat.ne_of_gt few)
  · refine ⟨fun _ => notesFree_concat.2 ⟨minuted.free.1 all, fun _ taken => free ?_⟩, fun _ => total.symm⟩
    rwa [← all, flatMap_names_concat, ← minuted.hasElement_next, Statement.names,
      ← hasElement_ensureAll_iff now] at taken

/-- A note whose id is taken is lost. Whoever it names comes in all the same. -/
theorem Minuted.unkept (minuted : Minuted said d) {placement : Placement} {participants : List String}
    {text : String}
    (taken : (participants.foldl (ensure now) d.graph).hasElement (noteName (noteCount d.graph + 1))) :
    Minuted (said ++ [.note placement participants text]) (d.apply now (.note placement participants text)) := by
  have kept := keptNotes_ensureAll now d.graph participants
  have same : noteCount (participants.foldl (ensure now) d.graph) = noteCount d.graph := by
    rw [noteCount_eq, kept, ← noteCount_eq]
  have left : d.apply now (.note placement participants text) =
      ⟨participants.foldl (ensure now) d.graph, d.steps + 1⟩ := by
    rw [← same] at taken
    exact congrArg (Draft.mk · (d.steps + 1)) (if_pos taken)
  have grown := growth_apply now d (.note placement participants text)
  rw [left] at grown ⊢
  refine minuted.unnoted grown ?_ ?_ ?_ same (fun id => hasElement_ensureAll_iff now participants) fun _ => taken
  · rw [length_minutes, List.countP_append, ← length_minutes, ← minuted.steps]
    rfl
  · rw [minutes_concat, record, messagesIn_concat, ← minuted.messages, keptMessages, connections_ensureAll]
    exact (List.append_nil _).symm
  · rw [minutes_concat, record, notesIn_concat, kept]
    exact minuted.notes.trans (List.prefix_append ..)

/-- A statement more is a statement more in the minutes. -/
theorem Minuted.apply (minuted : Minuted said d) (now : Instant) (s : Statement) :
    Minuted (said ++ [s]) (d.apply now s) := by
  cases s with
  | participant id label role => exact minuted.participant id label role
  | message source target arrow label => exact minuted.message source target arrow label
  | note placement participants text =>
    by_cases taken : (participants.foldl (ensure now) d.graph).hasElement (noteName (noteCount d.graph + 1))
    · exact minuted.unkept taken
    · exact minuted.noted taken

theorem Minuted.foldl (minuted : Minuted said d) (now : Instant) (statements : List Statement) :
    Minuted (said ++ statements) (statements.foldl (Draft.apply now) d) := by
  induction statements generalizing said d with
  | nil => rwa [List.append_nil]
  | cons s statements ih =>
    rw [List.append_cons]
    exact ih (minuted.apply now s)

end Draft

theorem minuted_read (now : Instant) (lines : List String) :
    Draft.Minuted (statementsOf lines) (lines.foldl (Draft.readLine now) .empty) := by
  rw [Draft.foldl_readLine]
  exact Draft.minuted_empty.foldl now (statementsOf lines)

/-- A diagram that is read has the messages of the minutes under their numbers, and the notes up to
the first whose id is taken: all of them, if and only if none is. -/
theorem read_minutes (now : Instant) (lines : List String) :
    let said := statementsOf lines
    keptMessages (read now lines) = messagesIn (minutes said) ∧
      keptNotes (read now lines) <+: notesIn (minutes said) ∧
      (keptNotes (read now lines) = notesIn (minutes said) ↔ NotesFree said) := by
  have minuted := minuted_read now lines
  exact ⟨minuted.messages, minuted.notes, minuted.keptNotes_eq_iff⟩

/-- Where a participant has the id of the first note, neither that note nor the next one is kept. -/
theorem notes_read_taken :
    let lines := ["participant note_1", "Note over A: one", "A->>B: two", "Note over B: three"]
    (statementsOf lines).countP Statement.isNote = 2 ∧ (notes (read .epoch lines)).length = 0 := by
  decide +kernel

end DiagramText.Sequence
