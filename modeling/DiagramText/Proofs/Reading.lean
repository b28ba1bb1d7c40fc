import DiagramText.Proofs.Classes.Reading
import DiagramText.Proofs.Entities.Reading
import DiagramText.Proofs.Flowchart.Reading
import DiagramText.Proofs.Sequence.Reading
import DiagramText.Proofs.States.Reading
import DiagramText.Registry

/-! Reading in any dialect. Every reader folds a step over the lines and each step only grows the
graph, so the five share their invariants: what is read is keyed, closed and numbered, and more
lines only add to it. -/
namespace DiagramText

open DiagramText.Graph (Growth)

/-! ### Folds over lines -/

section Fold

variable {D : Type} {graph : D → Graph}

theorem Growth.foldl {step : D → String → D} (grows : ∀ d line, Growth (graph d) (graph (step d line)))
    (d : D) (lines : List String) : Growth (graph d) (graph (lines.foldl step d)) := by
  induction lines generalizing d with
  | nil => exact .same
  | cons line lines ih => exact (grows d line).trans (ih _)

theorem foldl_commute {step later : D → String → D} {f : D → D}
    (commute : ∀ d line, f (step d line) = later (f d) line) (d : D) (lines : List String) :
    f (lines.foldl step d) = lines.foldl later (f d) := by
  induction lines generalizing d with
  | nil => rfl
  | cons line lines ih => rw [List.foldl_cons, ih, commute, List.foldl_cons]

end Fold

namespace Dialect

/-- More lines only add to what the first ones describe. -/
theorem growth_read (t : Dialect) (now : Instant) (xs ys : List String) :
    Growth (t.read now xs) (t.read now (xs ++ ys)) := by
  cases t with
  | flowchart =>
    simp only [read, Flowchart.read, List.foldl_append]
    exact Growth.foldl (Flowchart.Draft.growth_readLine now) _ ys
  | sequence =>
    simp only [read, Sequence.read, List.foldl_append]
    exact Growth.foldl (Sequence.Draft.growth_readLine now) _ ys
  | classes =>
    simp only [read, Classes.read, List.foldl_append]
    exact Growth.foldl (Classes.Draft.growth_readLine now) _ ys
  | states =>
    simp only [read, States.read, List.foldl_append]
    exact Growth.foldl (States.Draft.growth_readLine now) _ ys
  | entities =>
    simp only [read, Entities.read, List.foldl_append]
    exact Growth.foldl (Entities.Draft.growth_readLine now) _ ys

theorem read_nil (t : Dialect) (now : Instant) : t.read now [] = .empty := by cases t <;> rfl

theorem growth_of_read (t : Dialect) (now : Instant) (lines : List String) :
    Growth .empty (t.read now lines) := by
  have grown := growth_read t now [] lines
  rwa [read_nil, List.nil_append] at grown

theorem keyed_read (t : Dialect) (now : Instant) (lines : List String) : (t.read now lines).Keyed :=
  (growth_of_read t now lines).keyed Graph.keyed_empty

theorem closed_read (t : Dialect) (now : Instant) (lines : List String) :
    (t.read now lines).Closed := (growth_of_read t now lines).closed Graph.closed_empty

theorem numbered_read (t : Dialect) (now : Instant) (lines : List String) :
    (t.read now lines).Numbered := (growth_of_read t now lines).numbered Graph.numbered_empty

/-- Read at another time, the same lines give the same graph but for the stamps. -/
theorem retimed_read (t : Dialect) (now later : Instant) (lines : List String) :
    (t.read now lines).retimed later = t.read later lines := by
  cases t with
  | flowchart =>
    exact congrArg (·.graph) (foldl_commute (Flowchart.Draft.retimed_readLine now later) _ lines)
  | sequence =>
    exact congrArg (·.graph) (foldl_commute (f := Sequence.Draft.retimed later)
      Sequence.Draft.retimed_readLine _ lines)
  | classes =>
    exact congrArg (·.graph) (foldl_commute (f := Classes.Draft.retimed later)
      Classes.Draft.retimed_readLine _ lines)
  | states =>
    exact congrArg (·.graph) (foldl_commute (f := States.Draft.retimed later)
      States.Draft.retimed_readLine _ lines)
  | entities =>
    exact congrArg (·.graph) (foldl_commute (f := Entities.Draft.retimed later)
      Entities.Draft.retimed_readLine _ lines)

/-- Whatever the lines say, the graph that a reader makes of them is stored under its own ids, has
no loose ends and numbers its connections in order. Further lines, read at whatever time, leave
its elements and connections in front, the connections unchanged but for their stamps. -/
theorem read_sound_and_growing (t : Dialect) (now later : Instant) (xs ys : List String) :
    (t.read now xs).Keyed ∧ (t.read now xs).Closed ∧ (t.read now xs).Numbered ∧
    (t.read now xs).elements.keys <+: (t.read later (xs ++ ys)).elements.keys ∧
    ((t.read now xs).retimed later).connections.entries <+:
      (t.read later (xs ++ ys)).connections.entries := by
  have grown := growth_read t later xs ys
  rw [← retimed_read t now later xs] at grown
  refine ⟨keyed_read t now xs, closed_read t now xs, numbered_read t now xs, ?_, ?_⟩
  · have kept := grown.elements_prefix
    rwa [Graph.retimed, Table.keys_mapValues] at kept
  · apply grown.connections_prefix
    rw [retimed_read]
    exact numbered_read t later xs

end Dialect

/-! ### The clock -/

/-- The diagram as it would be if all of it had been made at one time. -/
def Diagram.retimed (now : Instant) (d : Diagram) : Diagram where
  toGraph := d.toGraph.retimed now
  dialect := d.dialect
  metadata := { d.metadata with createdAt := now, updatedAt := now }

theorem Diagram.retimed_ofGraph (now later : Instant) (t : Dialect) (lines : List String) (source : Source) :
    (ofGraph t (t.read now lines) (Registry.metadataOf now source t)).retimed later =
      ofGraph t (t.read later lines) (Registry.metadataOf later source t) := by
  rw [← t.retimed_read now later]
  simp [retimed, ofGraph, recount, Registry.metadataOf, Metadata.create, Graph.retimed]

/-- Read at another time, a text gives the same failure, or the same diagram but for the stamps. -/
theorem Registry.map_retimed_parse (r : Registry) (now later : Instant) (text : String) :
    (r.parse now text).map (Diagram.retimed later) = r.parse later text := by
  unfold Registry.parse
  cases Source.ofText? text with
  | none => rfl
  | some source =>
    cases declared : r.dialectOf source.header with
    | error failure => simp [declared, bind, Except.bind, Except.map]
    | ok t =>
      by_cases known : t ∈ r.readers
      · simp [declared, known, bind, Except.bind, pure, Except.pure, Except.map, Diagram.retimed_ofGraph]
      · simp [declared, known, bind, Except.bind, Except.map, throw, throwThe, MonadExceptOf.throw]

end DiagramText
