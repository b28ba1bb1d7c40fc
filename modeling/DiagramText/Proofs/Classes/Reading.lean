import DiagramText.Classes.Draft
import DiagramText.Proofs.Graph.Clock
import DiagramText.Proofs.Graph.Growth

/-! What a line does to a class draft, inside a body or outside: the graph only grows, and the clock
leaves no trace but the stamps. -/
namespace DiagramText.Classes.Draft

open DiagramText.Graph (Growth)

/-! ### Growth -/

theorem growth_ensure (now : Instant) (g : Graph) (name : String) : Growth g (ensure now g name) :=
  Graph.growth_ensure _ _ _ fun _ => rfl

theorem hasElement_ensure (now : Instant) (g : Graph) (name : String) :
    (ensure now g name).hasElement name := Graph.hasElement_ensure ..

theorem record_id (m : Member) (e : Element) : (record m e).id = e.id := by
  match m with
  | .attribute _ | .method _ => exact Graph.append_id ..
  | .stereotype _ => rfl

theorem growth_addMember (now : Instant) (g : Graph) (name : String) (text : List Char) :
    Growth g (addMember now g name text) := by
  unfold addMember
  split
  · exact .change _ _ (growth_ensure now g name) (record_id _)
  · exact .same

theorem growth_addMembers (now : Instant) (g : Graph) (name : String) (texts : List (List Char)) :
    Growth g (texts.foldl (addMember now · name ·) g) := by
  induction texts generalizing g with
  | nil => exact .same
  | cons text texts ih => exact (growth_addMember now g name text).trans (ih _)

theorem growth_addBody (now : Instant) (g : Graph) (name body : String) :
    Growth g (addBody now g name body).graph := by
  unfold addBody
  split
  · exact growth_addMembers ..
  · exact growth_addMember ..

theorem growth_apply (now : Instant) (g : Graph) (s : Statement) :
    Growth g (apply now g s).graph := by
  cases s with
  | declare name label body =>
    have named : Growth g ((ensure now g name).modifyElement name fun e =>
        { e with label := label.getD e.label }) := .change _ _ (growth_ensure now g name) fun _ => rfl
    cases body with
    | none => exact named
    | some body => exact named.trans (growth_addBody now _ name body)
  | stereotype name text => exact .change _ _ (growth_ensure now g name) (record_id _)
  | member name member => exact growth_addMember now g name member.toList
  | relation source target kind sourceCardinality targetCardinality label =>
    have ends := (growth_ensure now g source).trans (growth_ensure now _ target)
    exact .link now source target _ _ _ ends
      ((growth_ensure now _ target).hasElement (hasElement_ensure now g source))
      (hasElement_ensure now _ target)

theorem growth_readLine (now : Instant) (d : Draft) (line : String) :
    Growth d.graph (d.readLine now line).graph := by
  unfold readLine
  dsimp only
  split
  · split <;> exact growth_addMember ..
  · split
    · exact growth_apply now d.graph _
    · exact .same

/-! ### The clock -/

def retimed (now : Instant) (d : Draft) : Draft := { d with graph := d.graph.retimed now }

variable {now later : Instant}

theorem retimed_ensure (g : Graph) (name : String) :
    (ensure now g name).retimed later = ensure later (g.retimed later) name :=
  Graph.retimed_ensure name fun _ => rfl

theorem retimed_record (m : Member) (e : Element) :
    (record m e).retimed later = record m (e.retimed later) := by
  match m with
  | .attribute _ | .method _ => exact Graph.retimed_append ..
  | .stereotype _ => rfl

theorem retimed_addMember (g : Graph) (name : String) (text : List Char) :
    (addMember now g name text).retimed later = addMember later (g.retimed later) name text := by
  unfold addMember
  split
  · rw [Graph.retimed_modifyElement name (retimed_record _), retimed_ensure]
  · rfl

theorem retimed_addMembers (g : Graph) (name : String) (texts : List (List Char)) :
    (texts.foldl (addMember now · name ·) g).retimed later =
      texts.foldl (addMember later · name ·) (g.retimed later) := by
  induction texts generalizing g with
  | nil => rfl
  | cons text texts ih => rw [List.foldl_cons, ih, retimed_addMember, List.foldl_cons]

theorem retimed_addBody (g : Graph) (name body : String) :
    (addBody now g name body).retimed later = addBody later (g.retimed later) name body := by
  unfold addBody
  split
  · simp only [retimed, retimed_addMembers]
  · simp only [retimed, retimed_addMember]

theorem retimed_apply (g : Graph) (s : Statement) :
    (apply now g s).retimed later = apply later (g.retimed later) s := by
  cases s with
  | declare name label body =>
    have named : ((ensure now g name).modifyElement name fun e =>
        { e with label := label.getD e.label }).retimed later =
        (ensure later (g.retimed later) name).modifyElement name fun e =>
          { e with label := label.getD e.label } := by
      have made : (ensure now g name).retimed later = ensure later (g.retimed later) name :=
        retimed_ensure g name
      rw [← made]
      exact Graph.retimed_modifyElement name fun _ => rfl
    cases body with
    | none => simp only [apply, retimed, named]
    | some body =>
      simp only [apply]
      rw [retimed_addBody, named]
  | stereotype name text =>
    simp only [apply, retimed]
    rw [Graph.retimed_modifyElement name (retimed_record _), retimed_ensure]
  | member name member => simp only [apply, retimed, retimed_addMember]
  | relation source target kind sourceCardinality targetCardinality label =>
    simp only [apply, retimed]
    rw [Graph.retimed_connect, retimed_ensure, retimed_ensure]

theorem retimed_readLine (d : Draft) (line : String) :
    (d.readLine now line).retimed later = (d.retimed later).readLine later line := by
  obtain ⟨g, openClass⟩ := d
  cases openClass with
  | some name =>
    simp only [readLine, retimed]
    split <;> simp only [retimed_addMember]
  | none =>
    simp only [readLine]
    cases Statement.ofText? (Text.trim line.toList) with
    | none => rfl
    | some s => exact retimed_apply g s

end DiagramText.Classes.Draft
