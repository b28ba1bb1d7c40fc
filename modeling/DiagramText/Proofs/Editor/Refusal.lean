import DiagramText.Editor.Basic
import DiagramText.Proofs.Graph.Fresh
import DiagramText.Proofs.Registry

/-! Refused steps. A step is refused for reasons that the diagram alone decides: an id that is taken, an
id that is not there, an end that is no element, or a text that cannot be read. A step that is refused
leaves the editor as it was and makes no event. -/
namespace DiagramText.Editor

variable {ed : Editor} {now : Instant}

def MissesEnd (ed : Editor) (source target : String) : Prop :=
  source ∉ ed.elements.keys ∨ target ∉ ed.elements.keys

instance (ed : Editor) (source target : String) : Decidable (ed.MissesEnd source target) :=
  inferInstanceAs (Decidable (_ ∨ _))

/-- Why a step is refused. A change of a connection is judged by the ends that it would have. -/
def Forbids (now : Instant) (ed : Editor) : Edit → Prop
  | .addElement e => e.id ∈ ed.elements.keys
  | .updateElement id _ | .removeElement id => id ∉ ed.elements.keys
  | .addConnection c => c.id ∈ ed.connections.keys ∨ ed.MissesEnd c.source c.target
  | .connect source target _ _ => ed.MissesEnd source target
  | .updateConnection id p => id ∉ ed.connections.keys ∨ ∃ c, ed.connections.get? id = some c ∧
      ed.MissesEnd (p.source.getD c.source) (p.target.getD c.target)
  | .removeConnection id => id ∉ ed.connections.keys
  | .clear => False
  | .load text => ∃ e, ed.registry.parse now text = .error e

theorem hasEnds_iff {source target : String} : ed.hasEnds source target ↔ ¬ ed.MissesEnd source target := by
  simp [hasEnds, MissesEnd, Table.contains_iff]

theorem hasEnds_eq_false_iff {source target : String} :
    ed.hasEnds source target = false ↔ ed.MissesEnd source target := by
  rw [← Bool.not_eq_true, hasEnds_iff, not_not]

/-- A step is forbidden and refused, or neither. -/
inductive Settled (now : Instant) (ed : Editor) (edit : Edit) : Prop where
  | refused (forbidden : ed.Forbids now edit) (same : ed.apply now edit = ed.refuse false)
  | accepted (allowed : ¬ ed.Forbids now edit) (answer : (ed.apply now edit).answer = true)

theorem settled_addElement (e : Element) : Settled now ed (.addElement e) := by
  by_cases taken : ed.elements.contains e.id
  · exact .refused (Table.contains_iff.1 taken) (if_pos taken)
  · refine .accepted (mt Table.contains_iff.2 taken) ?_
    simp [apply, addElement, taken, carryOut]

theorem settled_updateElement (id : String) (p : ElementPatch) : Settled now ed (.updateElement id p) := by
  cases found : ed.elements.get? id with
  | none => exact .refused (Table.get?_eq_none_iff.1 found) (by simp [apply, updateElement, found])
  | some e =>
    refine .accepted (not_not_intro (Table.mem_keys_of_get? found)) ?_
    simp [apply, updateElement, found, carryOut]

theorem settled_removeElement (id : String) : Settled now ed (.removeElement id) := by
  cases found : ed.elements.get? id with
  | none => exact .refused (Table.get?_eq_none_iff.1 found) (by simp [apply, removeElement, found, refuse])
  | some e =>
    refine .accepted (not_not_intro (Table.mem_keys_of_get? found)) ?_
    simp [apply, removeElement, found, carryOut]

theorem settled_addConnection (c : Connection) : Settled now ed (.addConnection c) := by
  by_cases taken : c.id ∈ ed.connections.keys
  · have there : ed.connections.contains c.id := Table.contains_iff.2 taken
    exact .refused (.inl taken) (by simp [apply, addConnection, there])
  · have free : ed.connections.contains c.id = false := Table.contains_eq_false_iff.2 taken
    by_cases misses : ed.MissesEnd c.source c.target
    · have without : ed.hasEnds c.source c.target = false := hasEnds_eq_false_iff.2 misses
      exact .refused (.inr misses) (by simp [apply, addConnection, without])
    · have ends : ed.hasEnds c.source c.target := hasEnds_iff.2 misses
      refine .accepted (not_or.2 ⟨taken, misses⟩) ?_
      simp [apply, addConnection, free, ends, carryOut]

/-- The id is fresh, so that only an end can be missing. -/
theorem settled_connect (source target kind : String) (label : Option String) :
    Settled now ed (.connect source target kind label) := by
  have fresh := nextConnectionId_not_mem ed.connections
  let c := { Connection.create now (nextConnectionId ed.connections) source target kind with
    label := label.getD "" }
  have settled : Settled now ed (.addConnection c) := settled_addConnection c
  cases settled with
  | refused forbidden same =>
    have refused : ed.addConnection now c = ed.refuse false := same
    refine .refused (forbidden.resolve_left fresh) ?_
    simp [apply, connect, c, refused, refuse]
  | accepted allowed answer =>
    have accepted : (ed.addConnection now c).answer = true := answer
    refine .accepted (not_or.1 allowed).2 ?_
    simp [apply, connect, c, accepted]

theorem settled_updateConnection (id : String) (p : ConnectionPatch) :
    Settled now ed (.updateConnection id p) := by
  cases found : ed.connections.get? id with
  | none => exact .refused (.inl (Table.get?_eq_none_iff.1 found)) (by simp [apply, updateConnection, found])
  | some c =>
    by_cases misses : ed.MissesEnd (p.source.getD c.source) (p.target.getD c.target)
    · have without : ed.hasEnds (p.source.getD c.source) (p.target.getD c.target) = false :=
        hasEnds_eq_false_iff.2 misses
      exact .refused (.inr ⟨c, found, misses⟩) (by simp [apply, updateConnection, found, without])
    · have ends : ed.hasEnds (p.source.getD c.source) (p.target.getD c.target) := hasEnds_iff.2 misses
      refine .accepted ?_ (by simp [apply, updateConnection, found, ends, carryOut])
      rintro (absent | ⟨c', found', misses'⟩)
      · exact absent (Table.mem_keys_of_get? found)
      · rw [found, Option.some_inj] at found'
        exact misses (found' ▸ misses')

theorem settled_removeConnection (id : String) : Settled now ed (.removeConnection id) := by
  cases found : ed.connections.get? id with
  | none => exact .refused (Table.get?_eq_none_iff.1 found) (by simp [apply, removeConnection, found, refuse])
  | some c =>
    refine .accepted (not_not_intro (Table.mem_keys_of_get? found)) ?_
    simp [apply, removeConnection, found, carryOut]

theorem settled_load (text : String) : Settled now ed (.load text) := by
  cases parsed : ed.registry.parse now text with
  | error e => exact .refused ⟨e, parsed⟩ (by simp [apply, load, parsed, refuse, Except.toBool])
  | ok d =>
    refine .accepted ?_ (by simp [apply, load, parsed, Except.toBool])
    rintro ⟨e, failed⟩
    rw [parsed] at failed
    cases failed

theorem settled (now : Instant) (ed : Editor) (edit : Edit) : Settled now ed edit := by
  cases edit with
  | addElement e => exact settled_addElement e
  | updateElement id p => exact settled_updateElement id p
  | removeElement id => exact settled_removeElement id
  | addConnection c => exact settled_addConnection c
  | connect source target kind label => exact settled_connect source target kind label
  | updateConnection id p => exact settled_updateConnection id p
  | removeConnection id => exact settled_removeConnection id
  | clear => exact .accepted not_false rfl
  | load text => exact settled_load text

theorem answer_apply_eq_false_iff (edit : Edit) :
    (ed.apply now edit).answer = false ↔ ed.Forbids now edit := by
  cases settled now ed edit with
  | refused forbidden same => simp [forbidden, same, refuse]
  | accepted allowed answer => simp [allowed, answer]

/-- A refused step is the one that does nothing. -/
theorem apply_of_refused {edit : Edit} (refused : (ed.apply now edit).answer = false) :
    ed.apply now edit = ed.refuse false := by
  cases settled now ed edit with
  | refused _ same => exact same
  | accepted _ answer =>
    rw [answer] at refused
    cases refused

/-- What is loaded is what is read, with the time of creation and the description that were there. -/
theorem editor_load {text : String} {d : Diagram} (parsed : ed.registry.parse now text = .ok d) :
    (ed.load now text).editor = { ed with diagram := { d with metadata := { d.metadata with
      createdAt := ed.diagram.metadata.createdAt
      description := ed.diagram.metadata.description
      updatedAt := now } } } := by
  obtain ⟨source, t, -, -, -, rfl⟩ := Registry.parse_eq_ok_iff.1 parsed
  simp only [load, parsed]
  rfl

theorem answer_load (text : String) :
    (ed.load now text).answer = (ed.registry.parse now text).map fun _ => () := by
  cases parsed : ed.registry.parse now text <;> simp [load, parsed, refuse, Except.map]

/-- A step is refused for its reasons and for no other; refused, it changes nothing, and nobody is told.
Loading answers as reading does, and what is loaded is what is read. -/
theorem refused_iff_unchanged_and_load (now : Instant) (ed : Editor) :
    (∀ edit, ((ed.apply now edit).answer = false ↔ ed.Forbids now edit) ∧
      ((ed.apply now edit).answer = false →
        (ed.apply now edit).editor = ed ∧ (ed.apply now edit).deliveries = [])) ∧
    ∀ text, (ed.load now text).answer = (ed.registry.parse now text).map (fun _ => ()) ∧
      ∀ d, ed.registry.parse now text = .ok d →
        (ed.load now text).editor = { ed with diagram := { d with metadata := { d.metadata with
          createdAt := ed.diagram.metadata.createdAt
          description := ed.diagram.metadata.description
          updatedAt := now } } } := by
  refine ⟨fun edit => ⟨answer_apply_eq_false_iff edit, fun refused => ?_⟩, fun text => ?_⟩
  · rw [apply_of_refused refused]
    exact ⟨rfl, rfl⟩
  · exact ⟨answer_load text, fun d => editor_load⟩

/-- An element that is connected with itself; changes of connections are watched. -/
def looped : Editor :=
  execute [(.epoch, .addElement (.node .epoch "A" "A")), (.epoch, .connect "A" "A" "default" none)]
    ((create .epoch .flowchart).subscribe [.connectionUpdated] "log" false)

/-- Moves the end of the connection to an element that is not there. -/
def astray : Edit := .updateConnection "conn_1" { target := some "B" }

theorem refused_iff_unchanged_and_load_sample :
    (looped.observerCount .connectionUpdated = 1 ∧ (looped.apply .epoch astray).answer = false ∧
      (looped.apply .epoch astray).editor = looped ∧ (looped.apply .epoch astray).deliveries = []) ∧
    ∃ d, looped.registry.parse .epoch "flowchart TD\nB" = .ok d ∧
      (looped.load .epoch "flowchart TD\nB").editor.diagram.elements = d.elements := by
  have watched : looped.observerCount .connectionUpdated = 1 := by decide +kernel
  have refused : (looped.apply .epoch astray).answer = false := by decide +kernel
  have all := refused_iff_unchanged_and_load .epoch looped
  refine ⟨⟨watched, refused, (all.1 astray).2 refused⟩, ?_⟩
  have taken : Source.ofText? "flowchart TD\nB" = some ⟨"flowchart TD", ["B"], none⟩ := by decide +kernel
  have known : Dialect.flowchart ∈ looped.registry.readers := by decide +kernel
  obtain ⟨d, parsed⟩ : ∃ d, looped.registry.parse .epoch "flowchart TD\nB" = .ok d :=
    ⟨_, Registry.parse_eq_ok_iff.2 ⟨_, .flowchart, taken, rfl, known, rfl⟩⟩
  exact ⟨d, parsed, congrArg (·.diagram.elements) ((all.2 _).2 d parsed)⟩

end DiagramText.Editor
