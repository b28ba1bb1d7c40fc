import DiagramText.Entities.Draft
import DiagramText.Proofs.Graph.Clock
import DiagramText.Proofs.Graph.Growth

/-! What a line does to an entity draft, inside a block or outside: the graph only grows, and the
clock leaves no trace but the stamps. -/
namespace DiagramText.Entities.Draft

open DiagramText.Graph (Growth)

/-! ### Growth -/

theorem growth_ensure (now : Instant) (g : Graph) (name : String) : Growth g (ensure now g name) :=
  Graph.growth_ensure _ _ _ fun _ => rfl

theorem hasElement_ensure (now : Instant) (g : Graph) (name : String) :
    (ensure now g name).hasElement name := Graph.hasElement_ensure ..

theorem growth_addAttributes (g : Graph) (name : String) (attributes : List Attribute) :
    Growth g (addAttributes g name attributes) := by
  unfold addAttributes
  induction attributes generalizing g with
  | nil => exact .same
  | cons a as ih => exact (Graph.growth_appendTo g name attributesKey a.toJson).trans (ih _)

theorem growth_apply (now : Instant) (g : Graph) (s : Statement) :
    Growth g (apply now g s).graph := by
  cases s with
  | entity name attributes opensBlock =>
    exact (growth_ensure now g name).trans (growth_addAttributes _ name attributes)
  | relationship left right leftCardinality rightCardinality line label =>
    have ends := (growth_ensure now g left).trans (growth_ensure now _ right)
    exact .link now left right _ _ _ ends
      ((growth_ensure now _ right).hasElement (hasElement_ensure now g left))
      (hasElement_ensure now _ right)

theorem growth_readLine (now : Instant) (d : Draft) (line : String) :
    Growth d.graph (d.readLine now line).graph := by
  unfold readLine
  dsimp only
  split
  · split <;> exact growth_addAttributes ..
  · split
    · exact growth_apply now d.graph _
    · exact .same

/-! ### The clock -/

def retimed (now : Instant) (d : Draft) : Draft := { d with graph := d.graph.retimed now }

variable {now later : Instant}

theorem retimed_ensure (g : Graph) (name : String) :
    (ensure now g name).retimed later = ensure later (g.retimed later) name :=
  Graph.retimed_ensure name fun _ => rfl

theorem retimed_addAttributes (g : Graph) (name : String) (attributes : List Attribute) :
    (addAttributes g name attributes).retimed later =
      addAttributes (g.retimed later) name attributes := by
  unfold addAttributes
  induction attributes generalizing g with
  | nil => rfl
  | cons a as ih => rw [List.foldl_cons, ih, Graph.retimed_appendTo, List.foldl_cons]

theorem retimed_apply (g : Graph) (s : Statement) :
    (apply now g s).retimed later = apply later (g.retimed later) s := by
  cases s with
  | entity name attributes opensBlock =>
    simp only [apply, retimed, retimed_addAttributes, retimed_ensure]
  | relationship left right leftCardinality rightCardinality line label =>
    simp only [apply, retimed]
    rw [Graph.retimed_connect, retimed_ensure, retimed_ensure]

theorem retimed_readLine (d : Draft) (line : String) :
    (d.readLine now line).retimed later = (d.retimed later).readLine later line := by
  obtain ⟨g, openEntity⟩ := d
  cases openEntity with
  | some name =>
    simp only [readLine, retimed]
    split <;> simp only [addLine, retimed_addAttributes]
  | none =>
    simp only [readLine]
    cases Statement.ofText? (Text.trim line.toList) with
    | none => rfl
    | some s => exact retimed_apply g s

end DiagramText.Entities.Draft
