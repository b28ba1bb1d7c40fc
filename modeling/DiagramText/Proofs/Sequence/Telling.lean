import DiagramText.Proofs.Sequence.Reading
import DiagramText.Proofs.Sequence.Story
import DiagramText.Sequence.Printer

/-! The story that a sequence diagram tells. Its messages and notes are stored apart and carry
numbers; as long as the numbers fit a word they rise, and every statement that a draft takes is told
as the next one of the story. -/
namespace DiagramText.Sequence

open DiagramText.Graph (Keyed Numbered)

def memberOf (e : Element) : Member := ⟨e.id, e.property? roleKey, e.label⟩

/-- A message with its number. -/
def messageOf (c : Connection) : Nat × Step :=
  (orderOf c.properties, .message c.source c.target c.kind c.label)

/-- A note with its number. -/
def noteOf (e : Element) : Nat × Step :=
  (orderOf e.properties,
    .note e.id (e.property? placementKey) (e.listed participantsKey) e.label)

def present (g : Graph) : List Element := g.elements.values.filter fun e => e.kind ≠ .note
def notes (g : Graph) : List Element := g.elements.values.filter fun e => e.kind = .note

def counted (g : Graph) : List (Nat × Step) :=
  g.connections.values.map messageOf ++ (notes g).map noteOf

/-- The messages and notes by their numbers. -/
def numbered (g : Graph) : List (Nat × Step) := (counted g).mergeSort fun a b => a.1 ≤ b.1

/-- Who takes part in a diagram, and what happens in the order of the numbers. -/
def story (g : Graph) : Story := ⟨(present g).map memberOf, (numbered g).map (·.2)⟩

/-- The statements that lines say; other lines say nothing. -/
def statementsOf (lines : List String) : List Statement :=
  lines.filterMap fun line => Statement.ofText? line.toList

/-! ### Numbers that rise -/

def Rising (steps : List (Nat × Step)) : Prop := steps.Pairwise fun a b => a.1 < b.1

theorem numbered_perm (g : Graph) : (numbered g).Perm (counted g) := List.mergeSort_perm ..

/-- Where the keys of a list rise, it is what sorting makes of it in any order. -/
theorem mergeSort_eq_of_perm {α : Type} {key : α → Nat} {xs ys : List α} (perm : xs.Perm ys)
    (rising : ys.Pairwise fun a b => key a < key b) :
    xs.mergeSort (fun a b => key a ≤ key b) = ys := by
  have same : (xs.mergeSort fun a b => key a ≤ key b).Perm ys := (List.mergeSort_perm ..).trans perm
  have sorted : (xs.mergeSort fun a b => key a ≤ key b).Pairwise fun a b => key a ≤ key b := by
    have le_trans : ∀ a b c : α, key a ≤ key b → key b ≤ key c → key a ≤ key c :=
      fun _ _ _ => Nat.le_trans
    have le_total : ∀ a b : α, key a ≤ key b ∨ key b ≤ key a := fun _ _ => Nat.le_total _ _
    have by_key := @List.pairwise_mergeSort _ (fun a b : α => decide (key a ≤ key b))
      (by simpa using le_trans) (by simpa using le_total) xs
    simpa using by_key
  have apart : (xs.mergeSort fun a b => key a ≤ key b).Pairwise fun a b => key a ≠ key b :=
    (same.pairwise_iff fun h => Ne.symm h).2 (rising.imp fun h => Nat.ne_of_lt h)
  have strict := (sorted.and apart).imp fun h => Nat.lt_of_le_of_ne h.1 h.2
  exact List.Perm.eq_of_pairwise (fun a b _ _ h h' => absurd h (Nat.lt_asymm h')) strict rising same

/-- Steps whose numbers rise are all there is to their order. -/
theorem numbered_eq_of_perm {g : Graph} {steps : List (Nat × Step)} (perm : (counted g).Perm steps)
    (rising : Rising steps) : numbered g = steps := mergeSort_eq_of_perm perm rising

/-- A step with a number above all others comes last. -/
theorem numbered_concat {g h : Graph} {p : Nat × Step} (perm : (counted h).Perm (counted g ++ [p]))
    (rising : Rising (numbered g)) (above : ∀ q ∈ counted g, q.1 < p.1) :
    numbered h = numbered g ++ [p] ∧ Rising (numbered g ++ [p]) := by
  have risen : Rising (numbered g ++ [p]) := by
    refine List.pairwise_append.2 ⟨rising, List.pairwise_singleton _ _, ?_⟩
    intro q there r last
    rw [List.mem_singleton] at last
    exact last ▸ above q ((numbered_perm g).mem_iff.1 there)
  exact ⟨numbered_eq_of_perm (perm.trans ((numbered_perm g).symm.append_right [p])) risen, risen⟩

/-- A change of the steps that leaves their numbers alone leaves their order alone. -/
theorem numbered_map {g h : Graph} {f : Step → Step}
    (same : counted h = (counted g).map fun p => (p.1, f p.2)) :
    numbered h = (numbered g).map fun p => (p.1, f p.2) := by
  rw [numbered, numbered, same, List.map_mergeSort]
  intro a _ b _
  rfl

/-! ### Names -/

theorem noteIds_steps_perm (g : Graph) :
    (noteIds (story g).steps).Perm ((notes g).map (·.id)) := by
  have messages : (g.connections.values.map messageOf).filterMap (fun p => p.2.noteId?) = [] := by
    simp [List.filterMap_map, Function.comp_def, messageOf, Step.noteId?]
  have named : ((notes g).map noteOf).filterMap (fun p => p.2.noteId?) = (notes g).map (·.id) := by
    simp [List.filterMap_map, Function.comp_def, noteOf, Step.noteId?]
  have perm := (numbered_perm g).filterMap fun p => p.2.noteId?
  rw [counted, List.filterMap_append, messages, named, List.nil_append] at perm
  have through : noteIds (story g).steps = (numbered g).filterMap fun p => p.2.noteId? := by
    rw [noteIds, story, List.filterMap_map]
    rfl
  rw [through]
  exact perm

theorem nextNote_story (g : Graph) :
    (story g).nextNote = "note_" ++ toString (Draft.noteCount g + 1) := by
  rw [Story.nextNote, (noteIds_steps_perm g).length_eq, List.length_map]
  rfl

theorem keys_eq_map_id {g : Graph} (keyed : Keyed g) :
    g.elements.keys = g.elements.values.map (·.id) := by
  rw [Table.keys, Table.values, List.map_map]
  exact List.map_congr_left fun p h => keyed.elements p h

/-- The names in a story are the ids of the elements. -/
theorem mem_names_story {g : Graph} (keyed : Keyed g) {id : String} :
    id ∈ (story g).names ↔ g.hasElement id := by
  have cast : (story g).cast.map (·.id) = (present g).map (·.id) := by
    rw [story, List.map_map]
    rfl
  rw [Graph.hasElement_iff, keys_eq_map_id keyed, Story.names, List.mem_append, cast,
    (noteIds_steps_perm g).mem_iff]
  simp only [present, notes, List.mem_map, List.mem_filter, decide_eq_true_eq]
  constructor
  · rintro (⟨e, ⟨there, -⟩, named⟩ | ⟨e, ⟨there, -⟩, named⟩) <;> exact ⟨e, there, named⟩
  · rintro ⟨e, there, named⟩
    by_cases note : e.kind = .note
    · exact .inr ⟨e, ⟨there, note⟩, named⟩
    · exact .inl ⟨e, ⟨there, note⟩, named⟩

namespace Draft

variable {now : Instant} {g : Graph}

/-! ### Whoever comes in -/

theorem values_ensure (now : Instant) {g : Graph} {id : String} (absent : g.hasElement id = false) :
    (ensure now g id).elements.values =
      g.elements.values ++ [newParticipant now id (participantCount g)] := by
  have out : id ∉ g.elements.keys := by
    rw [← Graph.hasElement_iff, absent]
    exact Bool.false_ne_true
  rw [ensure, Graph.ensure, if_neg (by simp [absent])]
  exact Table.values_insert_of_not_mem out _

theorem memberOf_newParticipant (now : Instant) (id : String) (column : Nat) :
    memberOf (newParticipant now id column) = ⟨id, some Role.participant.keyword, id⟩ := by
  simp [memberOf, newParticipant, Element.node, Element.create, Element.moveTo, Element.setProperty,
    Element.property?, Table.get?_insert, Json.string?]

/-- Whoever comes in is no note. -/
theorem notes_ensure (now : Instant) (g : Graph) (id : String) : notes (ensure now g id) = notes g := by
  cases there : g.hasElement id with
  | true => rw [ensure, Graph.ensure, if_pos there]
  | false =>
    rw [notes, values_ensure now there, List.filter_append, notes]
    exact List.append_nil _

theorem connections_ensure (now : Instant) (g : Graph) (id : String) :
    (ensure now g id).connections = g.connections := by
  unfold ensure Graph.ensure
  split <;> rfl

theorem counted_ensure (now : Instant) (g : Graph) (id : String) :
    counted (ensure now g id) = counted g := by
  rw [counted, notes_ensure, connections_ensure, ← counted]

theorem story_ensure (now : Instant) (keyed : Keyed g) (id : String) :
    story (ensure now g id) = (story g).enter id := by
  have steps : numbered (ensure now g id) = numbered g := by
    rw [numbered, counted_ensure, ← numbered]
  cases there : g.hasElement id with
  | true =>
    rw [Story.enter_of_mem ((mem_names_story keyed).2 there), ensure, Graph.ensure, if_pos there]
  | false =>
    have absent : id ∉ (story g).names := by
      rw [mem_names_story keyed, there]
      exact Bool.false_ne_true
    have cast : present (ensure now g id) =
        present g ++ [newParticipant now id (participantCount g)] := by
      rw [present, values_ensure now there, List.filter_append, present]
      rfl
    rw [Story.enter, if_neg absent, story, steps, cast, List.map_append, List.map_singleton,
      memberOf_newParticipant]
    rfl

theorem keyed_ensure (now : Instant) (keyed : Keyed g) (id : String) : Keyed (ensure now g id) :=
  (growth_ensure now g id).keyed keyed

theorem counted_ensureAll (now : Instant) (g : Graph) (ids : List String) :
    counted (ids.foldl (ensure now) g) = counted g := by
  induction ids generalizing g with
  | nil => rfl
  | cons id ids ih => rw [List.foldl_cons, ih, counted_ensure]

theorem story_ensureAll (now : Instant) (keyed : Keyed g) (ids : List String) :
    story (ids.foldl (ensure now) g) = ids.foldl Story.enter (story g) := by
  induction ids generalizing g with
  | nil => rfl
  | cons id ids ih =>
    rw [List.foldl_cons, List.foldl_cons, ih (keyed_ensure now keyed id), story_ensure now keyed]

/-! ### Declarations -/

/-- What a declaration does to an element with the name. -/
def renamed (name : String) (label : Option String) (role : Role) (e : Element) : Element :=
  if e.id = name then recast label role e else e

theorem values_rename (keyed : Keyed g) (name : String) (label : Option String) (role : Role) :
    (g.modifyElement name (recast label role)).elements.values =
      g.elements.values.map (renamed name label role) := by
  simp only [Graph.modifyElement, Table.values, Table.entries_modify, List.map_map]
  apply List.map_congr_left
  intro p h
  simp only [Function.comp_apply, renamed, keyed.elements p h]

theorem kind_renamed (name : String) (label : Option String) (role : Role) (e : Element) :
    (renamed name label role e).kind = e.kind := by
  unfold renamed
  split <;> rfl

theorem memberOf_renamed (name : String) (label : Option String) (role : Role) (e : Element) :
    memberOf (renamed name label role e) = (memberOf e).recast name label role := by
  by_cases same : e.id = name
  · simp [renamed, same, memberOf, recast, Member.recast, Element.property?, Element.setProperty,
      Table.get?_insert, Json.string?]
  · simp [renamed, same, memberOf, Member.recast]

theorem noteOf_renamed (name : String) (label : Option String) (role : Role) (e : Element) :
    noteOf (renamed name label role e) = ((noteOf e).1, (noteOf e).2.relabel name label) := by
  have order : orderKey ≠ roleKey := by decide
  have placement : placementKey ≠ roleKey := by decide
  have participants : participantsKey ≠ roleKey := by decide
  by_cases same : e.id = name
  · simp [renamed, same, noteOf, recast, Step.relabel, orderOf, Element.property?, Element.listed,
      Element.setProperty, Table.get?_insert, order, placement, participants]
  · simp [renamed, same, noteOf, Step.relabel]

/-- Whoever is renamed stays what it is. -/
theorem filter_rename (keyed : Keyed g) (name : String) (label : Option String) (role : Role)
    (p : ElementKind → Bool) :
    ((g.modifyElement name (recast label role)).elements.values.filter fun e => p e.kind) =
      (g.elements.values.filter fun e => p e.kind).map (renamed name label role) := by
  have kinds : ((fun e : Element => p e.kind) ∘ renamed name label role) = fun e => p e.kind := by
    funext e
    rw [Function.comp_apply, kind_renamed]
  rw [values_rename keyed, List.filter_map, kinds]

theorem counted_rename (keyed : Keyed g) (name : String) (label : Option String) (role : Role) :
    counted (g.modifyElement name (recast label role)) =
      (counted g).map fun p => (p.1, p.2.relabel name label) := by
  have renamedNotes : notes (g.modifyElement name (recast label role)) =
      (notes g).map (renamed name label role) := filter_rename keyed name label role (· = .note)
  rw [counted, renamedNotes, counted, List.map_append, List.map_map, List.map_map, List.map_map]
  congr 1
  apply List.map_congr_left
  intro e _
  exact noteOf_renamed name label role e

theorem story_rename (keyed : Keyed g) (name : String) (label : Option String) (role : Role) :
    story (g.modifyElement name (recast label role)) = (story g).recast name label role := by
  have cast : present (g.modifyElement name (recast label role)) =
      (present g).map (renamed name label role) := filter_rename keyed name label role (· ≠ .note)
  have steps := numbered_map (counted_rename keyed name label role)
  rw [story, cast, steps, story, Story.recast, List.map_map, List.map_map, List.map_map, List.map_map]
  congr 1
  apply List.map_congr_left
  intro e _
  exact memberOf_renamed name label role e

/-! ### Messages and notes -/

theorem orderOf_ofNat {t : Table Json} {n : Nat} (there : t.get? orderKey = some (.ofNat n))
    (fits : n ≤ Json.maxWord) : orderOf t = n := by
  have word : Json.word? (.ofNat n) = some n := by
    simp only [Json.ofNat, Json.word?]
    rw [if_pos (by omega)]
    simp
  rw [orderOf, there, Option.bind_some, word, Option.getD_some]

theorem counted_connect (numbered : Numbered g) (source target kind label : String) {n : Nat}
    (fits : n ≤ Json.maxWord) :
    (counted (g.connect now source target kind label [(orderKey, .ofNat n)])).Perm
      (counted g ++ [(n, .message source target kind label)]) := by
  have order : orderOf (Table.ofList [(orderKey, Json.ofNat n)]) = n := by
    apply orderOf_ofNat _ fits
    simp [Table.ofList, Table.get?_insert]
  have message : messageOf (Graph.linkAs now (connectionId (g.connections.size + 1)) source target
      kind label [(orderKey, .ofNat n)]) = (n, .message source target kind label) := by
    simp [messageOf, Graph.linkAs, Connection.create, order]
  have links := numbered.entries_connect now source target kind label [(orderKey, .ofNat n)]
  have same : notes (g.connect now source target kind label [(orderKey, .ofNat n)]) = notes g := rfl
  rw [counted, same, Table.values, links, List.map_append, List.map_append, List.map_singleton,
    List.map_singleton, message, counted, List.append_assoc, List.append_assoc]
  exact List.Perm.append_left _ List.perm_append_comm

theorem present_connect (source target kind label : String) (properties : List (String × Json)) :
    present (g.connect now source target kind label properties) = present g := rfl

theorem noteOf_newNote (now : Instant) (g : Graph) {n : Nat} (fits : n ≤ Json.maxWord)
    (placement : Placement) (participants : List String) (text : String) :
    noteOf (newNote now g n placement participants text) =
      (n, .note (story g).nextNote (some placement.text) participants text) := by
  have order : orderOf (newNote now g n placement participants text).properties = n := by
    apply orderOf_ofNat _ fits
    simp [newNote, Element.setProperty, Element.moveTo, Table.get?_insert]
  have apart : placementKey ≠ orderKey ∧ placementKey ≠ participantsKey := by decide
  have apart' : participantsKey ≠ orderKey := by decide
  rw [noteOf, order, nextNote_story]
  simp [newNote, Element.create, Element.setProperty, Element.moveTo, Element.property?,
    Element.listed, Table.get?_insert, apart, apart', Json.string?]

/-- A note under a free id goes to the end; under an id that is taken it is left out. -/
theorem addElement_newNote (keyed : Keyed g) {n : Nat} (fits : n ≤ Json.maxWord)
    (placement : Placement) (participants : List String) (text : String) :
    ((story g).nextNote ∈ (story g).names ∧
      g.addElement (newNote now g n placement participants text) = g) ∨
    ((story g).nextNote ∉ (story g).names ∧
      present (g.addElement (newNote now g n placement participants text)) = present g ∧
      (counted (g.addElement (newNote now g n placement participants text))) =
        counted g ++ [(n, .note (story g).nextNote (some placement.text) participants text)]) := by
  have named : (newNote now g n placement participants text).id = (story g).nextNote :=
    (nextNote_story g).symm
  have value := noteOf_newNote now g fits placement participants text
  rw [mem_names_story keyed, ← named]
  rw [← named] at value
  have isNote : (newNote now g n placement participants text).kind = .note := rfl
  generalize newNote now g n placement participants text = note at value isNote ⊢
  cases there : g.hasElement note.id with
  | true =>
    refine .inl ⟨rfl, ?_⟩
    rw [Graph.addElement, if_pos there]
  | false =>
    have values : (g.addElement note).elements.values = g.elements.values ++ [note] := by
      rw [Graph.addElement, if_neg (by simp [there])]
      apply Table.values_insert_of_not_mem
      rw [← Graph.hasElement_iff, there]
      exact Bool.false_ne_true
    have links : (g.addElement note).connections = g.connections := by
      rw [Graph.addElement, if_neg (by simp [there])]
    refine .inr ⟨Bool.false_ne_true, ?_, ?_⟩
    · rw [present, values, List.filter_append, present]
      simp [isNote]
    · rw [counted, notes, values, links, List.filter_append, List.map_append, ← List.append_assoc,
        counted, notes]
      simp [isNote, value]

/-! ### A statement more -/

/-- A draft whose steps are in order: their numbers rise up to the last one that was given. -/
structure Counted (d : Draft) : Prop where
  keyed : d.graph.Keyed
  links : d.graph.Numbered
  rising : Rising (numbered d.graph)
  bounded : ∀ p ∈ counted d.graph, p.1 ≤ d.steps

theorem counted_empty : Counted .empty where
  keyed := Graph.keyed_empty
  links := Graph.numbered_empty
  rising := by
    have none : counted Draft.empty.graph = [] := rfl
    rw [numbered, none, List.mergeSort_nil]
    exact List.Pairwise.nil
  bounded := by simp [counted, notes, Draft.empty, Graph.empty, Table.values]

theorem steps_apply (d : Draft) (s : Statement) :
    (d.apply now s).steps = d.steps + if s.isStep then 1 else 0 := by cases s <;> rfl

/-- A step under the next number comes last. -/
theorem counted_push {d : Draft} (isCounted : Counted d) {g h : Graph} {s : Step}
    (same : counted g = counted d.graph) (cast : present h = present g) (keyed : Keyed h)
    (links : Numbered h) (perm : (counted h).Perm (counted g ++ [(d.steps + 1, s)])) :
    story h = (story g).happen s ∧ Counted ⟨h, d.steps + 1⟩ := by
  have rising : Rising (numbered g) := by
    rw [numbered, same, ← numbered]
    exact isCounted.rising
  have above : ∀ q ∈ counted g, q.1 < d.steps + 1 := by
    rw [same]
    exact fun q there => Nat.lt_succ_of_le (isCounted.bounded q there)
  obtain ⟨last, risen⟩ := numbered_concat perm rising above
  refine ⟨?_, keyed, links, last ▸ risen, fun p there => ?_⟩
  · rw [story, last, cast, List.map_append]
    rfl
  · rcases List.mem_append.1 (perm.mem_iff.1 there) with old | new
    · exact Nat.le_of_lt (above p old)
    · exact Nat.le_of_eq (congrArg Prod.fst (List.mem_singleton.1 new))

/-- A number that is given to no step leaves a gap. -/
theorem counted_skip {d : Draft} (isCounted : Counted d) {h : Graph} (keyed : Keyed h)
    (links : Numbered h) (same : counted h = counted d.graph) : Counted ⟨h, d.steps + 1⟩ where
  keyed := keyed
  links := links
  rising := by
    rw [numbered, same, ← numbered]
    exact isCounted.rising
  bounded := by
    rw [same]
    exact fun p there => Nat.le_succ_of_le (isCounted.bounded p there)

variable {d : Draft} (isCounted : Counted d)

include isCounted

theorem story_participant (id : String) (label : Option String) (role : Role) :
    story (d.apply now (.participant id label role)).graph =
        (story d.graph).tell (.participant id label role) ∧
      Counted (d.apply now (.participant id label role)) := by
  have keyed := keyed_ensure now isCounted.keyed id
  have grown := growth_apply now d (.participant id label role)
  have relabelled := counted_rename keyed id label role
  rw [counted_ensure] at relabelled
  refine ⟨?_, grown.keyed isCounted.keyed, grown.numbered isCounted.links, ?_, ?_⟩
  · rw [apply_participant, story_rename keyed, story_ensure now isCounted.keyed, Story.tell]
  · rw [apply_participant, numbered_map relabelled]
    exact List.pairwise_map.2 isCounted.rising
  · simp only [apply_participant, relabelled, List.forall_mem_map]
    exact isCounted.bounded

theorem story_message (room : d.steps < Json.maxWord) (source target : String) (arrow : Arrow)
    (label : Option String) :
    story (d.apply now (.message source target arrow label)).graph =
        (story d.graph).tell (.message source target arrow label) ∧
      Counted (d.apply now (.message source target arrow label)) := by
  have grown := growth_apply now d (.message source target arrow label)
  have ends := (growth_ensure now d.graph source).trans (growth_ensure now _ target)
  have told : story (ensure now (ensure now d.graph source) target) =
      ((story d.graph).enter source).enter target := by
    rw [story_ensure now (keyed_ensure now isCounted.keyed source),
      story_ensure now isCounted.keyed]
  have same : counted (ensure now (ensure now d.graph source) target) = counted d.graph := by
    rw [counted_ensure, counted_ensure]
  have added := @counted_connect now _ (ends.numbered isCounted.links) source target arrow.key
    (label.getD "") _ (Nat.succ_le_of_lt room)
  have cast := @present_connect now (ensure now (ensure now d.graph source) target) source target
    arrow.key (label.getD "") [(orderKey, .ofNat (d.steps + 1))]
  have pushed := counted_push isCounted same cast (grown.keyed isCounted.keyed)
    (grown.numbered isCounted.links) added
  rw [told] at pushed
  exact pushed

theorem story_note (room : d.steps < Json.maxWord) (placement : Placement)
    (participants : List String) (text : String) :
    story (d.apply now (.note placement participants text)).graph =
        (story d.graph).tell (.note placement participants text) ∧
      Counted (d.apply now (.note placement participants text)) := by
  have ends := growth_ensureAll now d.graph participants
  have grown := growth_apply now d (.note placement participants text)
  have told := story_ensureAll now isCounted.keyed participants
  have same := counted_ensureAll now d.graph participants
  simp only [Story.tell, ← told]
  rcases @addElement_newNote now _ (ends.keyed isCounted.keyed) (d.steps + 1) room placement
      participants text with ⟨taken, kept⟩ | ⟨free, cast, added⟩
  · rw [if_pos taken]
    have skipped := counted_skip isCounted (ends.keyed isCounted.keyed)
      (ends.numbered isCounted.links) same
    rw [apply, kept]
    exact ⟨rfl, skipped⟩
  · rw [if_neg free]
    exact counted_push isCounted same cast (grown.keyed isCounted.keyed)
      (grown.numbered isCounted.links) (added ▸ List.Perm.refl _)

/-- What a draft takes, its story tells. -/
theorem story_apply {s : Statement} (room : d.steps + (if s.isStep then 1 else 0) ≤ Json.maxWord) :
    story (d.apply now s).graph = (story d.graph).tell s ∧ Counted (d.apply now s) := by
  cases s with
  | participant id label role => exact story_participant isCounted id label role
  | message source target arrow label => exact story_message isCounted room source target arrow label
  | note placement participants text => exact story_note isCounted room placement participants text

omit isCounted in
theorem foldl_readLine (now : Instant) (d : Draft) (lines : List String) :
    lines.foldl (readLine now) d = (statementsOf lines).foldl (apply now) d := by
  induction lines generalizing d with
  | nil => rfl
  | cons line lines ih =>
    rw [List.foldl_cons, ih, readLine, statementsOf, statementsOf, List.filterMap_cons]
    cases Statement.ofText? line.toList with
    | none => rfl
    | some s => rfl

/-- A run of statements tells them all. -/
theorem story_foldl {statements : List Statement}
    (room : d.steps + statements.countP Statement.isStep ≤ Json.maxWord) :
    story (statements.foldl (apply now) d).graph = statements.foldl Story.tell (story d.graph) := by
  induction statements generalizing d with
  | nil => rfl
  | cons s statements ih =>
    rw [List.countP_cons] at room
    obtain ⟨told, next⟩ := @story_apply now d isCounted s (by omega)
    rw [List.foldl_cons, List.foldl_cons, ← told]
    apply ih next
    rw [steps_apply]
    omega

end Draft

theorem story_empty : story Draft.empty.graph = .empty := by
  have none : counted Draft.empty.graph = [] := rfl
  rw [story, numbered, none, List.mergeSort_nil]
  rfl

/-- What is read of some lines is the story that their statements tell. -/
theorem story_read (now : Instant) {lines : List String}
    (room : (statementsOf lines).countP Statement.isStep ≤ Json.maxWord) :
    story (read now lines) = (statementsOf lines).foldl Story.tell .empty := by
  rw [read, Draft.foldl_readLine, ← story_empty]
  apply Draft.story_foldl Draft.counted_empty
  rwa [Draft.empty, Nat.zero_add]

end DiagramText.Sequence
