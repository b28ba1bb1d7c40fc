import DiagramText.Proofs.Editor.Integrity
import DiagramText.Proofs.Editor.Refusal

/-! Replicas. Whoever is told of every change can keep a graph of their own that is the same as the
editor's, order and all. On the way through a step that makes several events, too, no connection of the
replica misses an end: the connections at an element are taken out before the element. -/
namespace DiagramText

namespace Table

variable {α : Type}

/-- Only what a change makes of the value that is there counts. -/
theorem modify_congr {t : Table α} {k : String} {v : α} (there : t.get? k = some v) {f g : α → α}
    (same : f v = g v) : t.modify k f = t.modify k g := by
  apply ext
  rw [entries_modify, entries_modify]
  apply List.map_congr_left
  rintro ⟨l, w⟩ among
  by_cases own : l = k
  · have only : w = v := by
      rw [← own, get?_eq_some_iff.2 among] at there
      exact Option.some.inj there
    simp only [own, if_true, only, same]
  · simp only [own, if_false]

/-- Puts a value at the end; a key that is taken is none to put it under. -/
def append? (t : Table α) (k : String) (v : α) : Option (Table α) :=
  if t.contains k then none else some (t.insert k v)

/-- Puts a value in the place of the one that is there. -/
def replace? (t : Table α) (k : String) (v : α) : Option (Table α) :=
  if t.contains k then some (t.modify k fun _ => v) else none

def erase? (t : Table α) (k : String) : Option (Table α) :=
  if t.contains k then some (t.erase k) else none

variable {t : Table α} {k : String} {v : α}

theorem append?_of_not_mem (free : k ∉ t.keys) (v : α) : t.append? k v = some (t.insert k v) :=
  if_neg (mt contains_iff.1 free)

/-- To put a changed value in the place of the old one is to change it there. -/
theorem replace?_of_get? (there : t.get? k = some v) (f : α → α) :
    t.replace? k (f v) = some (t.modify k f) := by
  rw [replace?, if_pos (contains_iff.2 (mem_keys_of_get? there))]
  exact congrArg some (modify_congr there rfl)

theorem erase?_of_get? (there : t.get? k = some v) : t.erase? k = some (t.erase k) :=
  if_pos (contains_iff.2 (mem_keys_of_get? there))

end Table

namespace Graph

/-- What is made of a graph by whoever is told of an event. An event that does not fit, because it adds
what is there or changes or removes what is not, makes nothing of it. -/
def follow? (g : Graph) : Event → Option Graph
  | .elementAdded e => (g.elements.append? e.id e).map fun t => { g with elements := t }
  | .elementUpdated e => (g.elements.replace? e.id e).map fun t => { g with elements := t }
  | .elementRemoved e => (g.elements.erase? e.id).map fun t => { g with elements := t }
  | .connectionAdded c => (g.connections.append? c.id c).map fun t => { g with connections := t }
  | .connectionUpdated c => (g.connections.replace? c.id c).map fun t => { g with connections := t }
  | .connectionRemoved c => (g.connections.erase? c.id).map fun t => { g with connections := t }

/-- The replica after a run of events. -/
def replay? (g : Graph) (events : List Event) : Option Graph := events.foldlM follow? g

/-- Events that lead from one graph to another, through graphs without loose ends. -/
inductive Leads : Graph → List Event → Graph → Prop where
  | stay {g : Graph} (closed : g.Closed) : Leads g [] g
  | step {g h k : Graph} {event : Event} {events : List Event} (closed : g.Closed)
      (next : g.follow? event = some h) (rest : Leads h events k) : Leads g (event :: events) k

variable {g h k : Graph} {event : Event} {events more seen : List Event}

theorem Leads.one (before : g.Closed) (next : g.follow? event = some h) (after : h.Closed) :
    Leads g [event] h := .step before next (.stay after)

theorem Leads.append (first : Leads g events h) (second : Leads h more k) :
    Leads g (events ++ more) k := by
  induction first with
  | stay => exact second
  | step closed next _ ih => exact .step closed next (ih second)

theorem Leads.closed (leads : Leads g events h) : h.Closed := by
  induction leads with
  | stay closed => exact closed
  | step _ _ _ ih => exact ih

theorem Leads.replay? (leads : Leads g events h) : g.replay? events = some h := by
  induction leads with
  | stay => rfl
  | step _ next _ ih =>
    rw [Graph.replay?, List.foldlM_cons, next]
    exact ih

/-- Wherever one stops on the way, there is no loose end. -/
theorem Leads.exists_of_prefix (leads : Leads g events h) (part : seen <+: events) :
    ∃ m, g.replay? seen = some m ∧ m.Closed := by
  induction leads generalizing seen with
  | stay closed =>
    obtain rfl := List.prefix_nil.1 part
    exact ⟨_, rfl, closed⟩
  | @step g h k event events closed next _ ih =>
    cases seen with
    | nil => exact ⟨g, rfl, closed⟩
    | cons first seen =>
      obtain ⟨rfl, later⟩ := List.cons_prefix_cons.1 part
      obtain ⟨m, reached, whole⟩ := ih later
      refine ⟨m, ?_, whole⟩
      rw [Graph.replay?, List.foldlM_cons, next]
      exact reached

end Graph

/-! ### Steps -/

namespace Editor
open DiagramText.Graph (Leads Closed)

variable {ed : Editor} {now : Instant} {run : List (Instant × Edit)}

/-- The events of a step lead from the graph before it to the graph after it. -/
def Tells {α : Type} (ed : Editor) (s : Step α) : Prop :=
  Leads ed.diagram.toGraph s.events s.editor.diagram.toGraph

theorem tells_refuse {α : Type} (sound : ed.diagram.Sound) (answer : α) : ed.Tells (ed.refuse answer) :=
  .stay sound.closed

/-- A change that is told in one event. -/
theorem tells_carryOut {α : Type} {answer : α} {g : Graph} {event : Event} (sound : ed.diagram.Sound)
    (next : ed.diagram.toGraph.follow? event = some g)
    (after : (ed.carryOut now g answer [event]).editor.diagram.Sound) :
    ed.Tells (ed.carryOut now g answer [event]) := .one sound.closed next after.closed

theorem tells_addElement (sound : ed.diagram.Sound) (e : Element) : ed.Tells (ed.addElement now e) := by
  have after : (ed.addElement now e).editor.diagram.Sound := sound_addElement sound e
  unfold addElement at after ⊢
  by_cases taken : ed.elements.contains e.id
  · rw [if_pos taken]
    exact tells_refuse sound false
  · rw [if_neg taken] at after ⊢
    have next := Table.append?_of_not_mem (mt Table.contains_iff.2 taken) e
    exact tells_carryOut sound (congrArg (Option.map _) next) after

theorem tells_updateElement (sound : ed.diagram.Sound) (id : String) (p : ElementPatch) :
    ed.Tells (ed.updateElement now id p) := by
  have after : (ed.updateElement now id p).editor.diagram.Sound := sound_updateElement sound id p
  unfold updateElement at after ⊢
  cases found : ed.elements.get? id with
  | none => exact tells_refuse sound false
  | some e =>
    rw [found] at after
    have own : id = e.id := sound.keyed.elements _ (Table.get?_eq_some_iff.1 found)
    have next := Table.replace?_of_get? (own ▸ found) (p.apply now)
    refine tells_carryOut sound ?_ after
    subst own
    exact congrArg (Option.map _) next

/-- Connections that are taken out one after the other are told of one after the other. -/
theorem leads_takeOut (ids : List String) {g : Graph} (filed : g.Filed) (closed : g.Closed) :
    Leads g ((takeOut ids g.connections).1.map .connectionRemoved)
      { g with connections := (takeOut ids g.connections).2 } := by
  induction ids generalizing g with
  | nil => exact .stay closed
  | cons id ids ih =>
    have fewer : (g.connections.erase id).entries ⊆ g.connections.entries := List.filter_sublist.subset
    have others := ih (g := { g with connections := g.connections.erase id })
      (fun p hp => filed p (fewer hp)) (Graph.closed_of_connections_subset closed fewer)
    cases found : g.connections.get? id with
    | none =>
      rw [Table.erase_of_get?_eq_none found] at others
      simpa [takeOut, found, Table.erase_of_get?_eq_none found] using others
    | some c =>
      obtain rfl : id = c.id := filed _ (Table.get?_eq_some_iff.1 found)
      have next := Table.erase?_of_get? found
      have first : g.follow? (.connectionRemoved c) =
          some { g with connections := g.connections.erase c.id } := congrArg (Option.map _) next
      simpa [takeOut, found] using Leads.step closed first others

/-- The connections go first, so that the element is at no connection when it goes. -/
theorem tells_removeElement (sound : ed.diagram.Sound) (id : String) :
    ed.Tells (ed.removeElement now id) := by
  have after : (ed.removeElement now id).editor.diagram.Sound := sound_removeElement sound id
  unfold removeElement at after ⊢
  cases found : ed.elements.get? id with
  | none => exact tells_refuse sound none
  | some e =>
    rw [found] at after
    obtain rfl : id = e.id := sound.keyed.elements _ (Table.get?_eq_some_iff.1 found)
    have cascade := leads_takeOut ((ed.diagram.toGraph.connectionsFor e.id).map (·.id))
      sound.keyed.filed sound.closed
    have next := Table.erase?_of_get? found
    exact cascade.append (.one cascade.closed (congrArg (Option.map _) next) after.closed)

theorem tells_addConnection (sound : ed.diagram.Sound) (c : Connection) :
    ed.Tells (ed.addConnection now c) := by
  have after : (ed.addConnection now c).editor.diagram.Sound := sound_addConnection sound c
  unfold addConnection at after ⊢
  by_cases refused : ed.connections.contains c.id || !ed.hasEnds c.source c.target
  · rw [if_pos refused]
    exact tells_refuse sound false
  · rw [if_neg refused] at after ⊢
    have free : c.id ∉ ed.connections.keys := by
      rw [← Table.contains_iff]
      exact fun taken => refused (Bool.or_eq_true_iff.2 (.inl taken))
    exact tells_carryOut sound (congrArg (Option.map _) (Table.append?_of_not_mem free c)) after

theorem tells_updateConnection (sound : ed.diagram.Sound) (id : String) (p : ConnectionPatch) :
    ed.Tells (ed.updateConnection now id p) := by
  have after : (ed.updateConnection now id p).editor.diagram.Sound := sound_updateConnection sound id p
  unfold updateConnection at after ⊢
  cases found : ed.connections.get? id with
  | none => exact tells_refuse sound false
  | some c =>
    rw [found] at after
    obtain rfl : id = c.id := sound.keyed.filed _ (Table.get?_eq_some_iff.1 found)
    have next := Table.replace?_of_get? found (p.apply now)
    dsimp only at after ⊢
    split at after
    · next ends =>
      rw [if_pos ends]
      exact tells_carryOut sound (congrArg (Option.map _) next) after
    · next ends =>
      rw [if_neg ends]
      exact tells_refuse sound false

theorem tells_removeConnection (sound : ed.diagram.Sound) (id : String) :
    ed.Tells (ed.removeConnection now id) := by
  have after : (ed.removeConnection now id).editor.diagram.Sound := sound_removeConnection sound id
  unfold removeConnection at after ⊢
  cases found : ed.connections.get? id with
  | none => exact tells_refuse sound none
  | some c =>
    rw [found] at after
    obtain rfl : id = c.id := sound.keyed.filed _ (Table.get?_eq_some_iff.1 found)
    have next := Table.erase?_of_get? found
    exact tells_carryOut sound (congrArg (Option.map _) next) after

/-- The steps that observers are told of. -/
def Edit.IsTold : Edit → Prop
  | .clear | .load _ => False
  | _ => True

theorem tells_apply (sound : ed.diagram.Sound) {edit : Edit} (told : edit.IsTold) :
    ed.Tells (ed.apply now edit) := by
  cases edit with
  | addElement e => exact tells_addElement sound e
  | updateElement id p => exact tells_updateElement sound id p
  | removeElement id => exact tells_removeElement sound id
  | addConnection c => exact tells_addConnection sound c
  | connect source target kind label => exact tells_addConnection sound _
  | updateConnection id p => exact tells_updateConnection sound id p
  | removeConnection id => exact tells_removeConnection sound id
  | clear => exact told.elim
  | load text => exact told.elim

/-! ### Runs -/

/-- Who is told of what while a run is carried out. -/
def told : List (Instant × Edit) → Editor → List Delivery
  | [], _ => []
  | (now, edit) :: run, ed =>
    let step := ed.apply now edit
    step.deliveries ++ told run step.editor

theorem observers_apply (now : Instant) (ed : Editor) (edit : Edit) :
    (ed.apply now edit).editor.observers = ed.observers := by
  cases edit with
  | addElement e => simp only [apply, addElement]; split <;> rfl
  | updateElement id p => simp only [apply, updateElement]; split <;> rfl
  | removeElement id => simp only [apply, removeElement]; split <;> rfl
  | addConnection c => simp only [apply, addConnection]; split <;> rfl
  | connect source target kind label => simp only [apply, connect, addConnection]; split <;> rfl
  | updateConnection id p =>
    simp only [apply, updateConnection]
    split
    · rfl
    · split <;> rfl
  | removeConnection id => simp only [apply, removeConnection]; split <;> rfl
  | clear => rfl
  | load text => simp only [apply, load]; split <;> rfl

/-- Someone who observes every kind of event once. -/
def watch (kinds : List EventKind) (name : String) (fails : Bool) : List Observer :=
  kinds.map fun kind => ⟨name, kind, fails⟩

/-- Whoever observes every kind of event is told of every event, once and in order. -/
theorem map_event_deliveries {kinds : List EventKind} (each : ∀ kind, kinds.count kind = 1)
    (name : String) (fails : Bool) (events : List Event) :
    (deliveries (watch kinds name fails) events).map (·.event) = events := by
  have one (event : Event) : (watch kinds name fails).filter (·.kind = event.kind) =
      [⟨name, event.kind, fails⟩] := by
    rw [watch, List.filter_map]
    show (kinds.filter fun kind => kind = event.kind).map _ = _
    rw [List.filter_eq, each]
    rfl
  induction events with
  | nil => rfl
  | cons event events ih =>
    simp only [deliveries, List.flatMap_cons, one, List.map_cons, List.map_nil, List.singleton_append] at ih ⊢
    rw [ih]

theorem leads_told {kinds : List EventKind} (each : ∀ kind, kinds.count kind = 1) {name : String}
    {fails : Bool} (watched : ed.observers = watch kinds name fails) (sound : ed.diagram.Sound)
    (all : ∀ step ∈ run, step.2.IsTold) : Leads ed.diagram.toGraph ((told run ed).map (·.event))
      (execute run ed).diagram.toGraph := by
  induction run generalizing ed with
  | nil => exact .stay sound.closed
  | cons step run ih =>
    rw [List.forall_mem_cons] at all
    have first : ed.Tells (ed.apply step.1 step.2) := tells_apply sound all.1
    have others := ih ((observers_apply step.1 ed step.2).trans watched) (sound_apply sound step.2) all.2
    have heard : (ed.apply step.1 step.2).deliveries.map (·.event) = (ed.apply step.1 step.2).events := by
      rw [Step.deliveries, observers_apply, watched, map_event_deliveries each]
    rw [told, List.map_append, heard]
    exact first.append others

/-- Whoever observes a new diagram from the start, every kind of event once, can follow the editor through
every run: the replica is always the graph of the editor, no event on the way leaves a loose end, and of
steps that are refused nothing is heard. -/
theorem replay_told (start : Instant) (t : Dialect) {kinds : List EventKind}
    (each : ∀ kind, kinds.count kind = 1) (name : String) (fails : Bool) {run : List (Instant × Edit)}
    (all : ∀ step ∈ run, step.2.IsTold) :
    let ed := (create start t).subscribe kinds name fails
    let heard := (told run ed).map (·.event)
    Graph.empty.replay? heard = some (execute run ed).diagram.toGraph ∧
      (∀ seen, seen <+: heard → ∃ g, Graph.empty.replay? seen = some g ∧ g.dangling = []) ∧
      ∀ now edit, ((execute run ed).apply now edit).answer = false →
        ((execute run ed).apply now edit).deliveries = [] := by
  intro ed heard
  have watched : ed.observers = watch kinds name fails := rfl
  have leads : Leads .empty heard (execute run ed).diagram.toGraph :=
    leads_told each watched (sound_create start t) all
  refine ⟨leads.replay?, fun seen part => ?_, fun now edit refused => ?_⟩
  · obtain ⟨g, reached, closed⟩ := leads.exists_of_prefix part
    exact ⟨g, reached, Graph.dangling_eq_nil_iff.2 closed⟩
  · rw [apply_of_refused refused]
    rfl

/-- An element goes with a connection to another element and one to itself; a last step is refused. -/
def cascade : List (Instant × Edit) := [
  (.epoch, .addElement (.node .epoch "A" "A")),
  (.epoch, .addElement (.node .epoch "B" "B")),
  (.epoch, .connect "A" "B" "default" none),
  (.epoch, .connect "A" "A" "default" none),
  (.epoch, .updateConnection "conn_1" { label := some "x" }),
  (.epoch, .removeElement "A"),
  (.epoch, .removeElement "A")]

def everyKind : List EventKind := [.elementAdded, .elementUpdated, .elementRemoved, .connectionAdded,
  .connectionUpdated, .connectionRemoved]

def watched : Editor := (create .epoch .flowchart).subscribe everyKind "log" true

theorem replay_told_cascade : (∀ kind, everyKind.count kind = 1) ∧ (∀ step ∈ cascade, step.2.IsTold) ∧
    (told cascade watched).map (fun d => (d.event.kind, d.event.subjectId)) = [(.elementAdded, "A"),
      (.elementAdded, "B"), (.connectionAdded, "conn_1"), (.connectionAdded, "conn_2"),
      (.connectionUpdated, "conn_1"), (.connectionRemoved, "conn_1"), (.connectionRemoved, "conn_2"),
      (.elementRemoved, "A")] ∧
    Graph.empty.replay? ((told cascade watched).map (·.event)) =
      some (execute cascade watched).diagram.toGraph := by
  have each : ∀ kind, everyKind.count kind = 1 := fun kind => by cases kind <;> rfl
  have all : ∀ step ∈ cascade, step.2.IsTold := by simp [cascade, Edit.IsTold]
  exact ⟨each, all, by decide +kernel, (replay_told .epoch .flowchart each "log" true all).1⟩

end Editor
end DiagramText
