import DiagramText.Proofs.Graph.Clock
import DiagramText.Proofs.Graph.Growth
import DiagramText.Sequence.Draft

/-! What a statement does to a sequence draft: the graph only grows, and the clock leaves no trace
but the stamps. -/
namespace DiagramText.Sequence.Draft

open DiagramText.Graph (Growth)

/-- What a declaration says of a participant that is there. -/
def recast (label : Option String) (role : Role) (e : Element) : Element :=
  { e with label := label.getD e.label }.setProperty roleKey (.str role.keyword)

theorem apply_participant (now : Instant) (d : Draft) (id : String) (label : Option String)
    (role : Role) : d.apply now (.participant id label role) =
      { d with graph := (ensure now d.graph id).modifyElement id (recast label role) } := rfl

/-! ### Growth -/

theorem growth_ensure (now : Instant) (g : Graph) (id : String) : Growth g (ensure now g id) :=
  Graph.growth_ensure _ _ _ fun _ => rfl

theorem hasElement_ensure (now : Instant) (g : Graph) (id : String) :
    (ensure now g id).hasElement id := Graph.hasElement_ensure ..

theorem growth_ensureAll (now : Instant) (g : Graph) (ids : List String) :
    Growth g (ids.foldl (ensure now) g) := by
  induction ids generalizing g with
  | nil => exact .same
  | cons id ids ih => exact (growth_ensure now g id).trans (ih _)

theorem growth_apply (now : Instant) (d : Draft) (s : Statement) :
    Growth d.graph (d.apply now s).graph := by
  cases s with
  | participant id label role => exact .change _ _ (growth_ensure now _ _) fun _ => rfl
  | message source target arrow label =>
    have ends := (growth_ensure now d.graph source).trans (growth_ensure now _ target)
    exact .link now source target _ _ _ ends
      ((growth_ensure now _ target).hasElement (hasElement_ensure now _ source))
      (hasElement_ensure now _ target)
  | note placement participants text =>
    exact (growth_ensureAll now d.graph participants).trans (Graph.growth_addElement _ _)

theorem growth_readLine (now : Instant) (d : Draft) (line : String) :
    Growth d.graph (d.readLine now line).graph := by
  unfold readLine
  split
  · exact growth_apply now d _
  · exact .same

/-! ### The clock -/

def retimed (now : Instant) (d : Draft) : Draft := { d with graph := d.graph.retimed now }

variable {now later : Instant}

theorem participantCount_retimed (g : Graph) :
    participantCount (g.retimed later) = participantCount g := by
  simp only [participantCount, Graph.values_elements_retimed, List.filter_map, List.length_map]
  rfl

theorem noteCount_retimed (g : Graph) : noteCount (g.retimed later) = noteCount g := by
  simp only [noteCount, Graph.values_elements_retimed, List.filter_map, List.length_map]
  rfl

theorem retimed_ensure (g : Graph) (id : String) :
    (ensure now g id).retimed later = ensure later (g.retimed later) id := by
  unfold ensure
  rw [Graph.retimed_ensure id fun _ => rfl, participantCount_retimed]
  rfl

theorem retimed_ensureAll (g : Graph) (ids : List String) :
    (ids.foldl (ensure now) g).retimed later = ids.foldl (ensure later) (g.retimed later) := by
  induction ids generalizing g with
  | nil => rfl
  | cons id ids ih => rw [List.foldl_cons, ih, retimed_ensure, List.foldl_cons]

theorem retimed_newNote (g : Graph) (step : Nat) (placement : Placement)
    (participants : List String) (text : String) :
    (newNote now g step placement participants text).retimed later =
      newNote later (g.retimed later) step placement participants text := by
  have place : ((participants.head?.bind (g.retimed later).element?).map (·.position.x)) =
      (participants.head?.bind g.element?).map (·.position.x) := by
    cases participants with
    | nil => rfl
    | cons id ids =>
      simp only [List.head?_cons, Option.bind_some, Graph.element?_retimed, Option.map_map]
      rfl
  simp only [newNote, place, noteCount_retimed]
  rfl

theorem retimed_apply (d : Draft) (s : Statement) :
    (d.apply now s).retimed later = (d.retimed later).apply later s := by
  cases s with
  | participant id label role =>
    simp only [apply_participant, retimed]
    rw [Graph.retimed_modifyElement id (f := recast label role) fun _ => rfl, retimed_ensure]
  | message source target arrow label =>
    simp only [apply, retimed]
    rw [Graph.retimed_connect, retimed_ensure, retimed_ensure]
  | note placement participants text =>
    simp only [apply, retimed]
    rw [Graph.retimed_addElement (retimed_newNote ..), retimed_ensureAll]

theorem retimed_readLine (d : Draft) (line : String) :
    (d.readLine now line).retimed later = (d.retimed later).readLine later line := by
  unfold readLine
  split
  · exact retimed_apply d _
  · rfl

end DiagramText.Sequence.Draft
