import DiagramText.Proofs.Outline.Reaching
import DiagramText.Proofs.Printing

/-! What printed source declares. Flowcharts and state diagrams print the outline of their elements, and
below it what joins them. Of elements that may list each other in any way the outline declares those that
are reached from the top: all of them when nothing lies below itself, and none of a group that is inside
itself only. -/
namespace DiagramText

open Outline (Explores Faithful Forest Lists Reached childKeys ofElements_of_explores rootKeys)

variable {g : Graph}

/-! ### A walk through anything -/

namespace Flowchart

/-- Whatever the containers of a flowchart list, its source starts with a faithful outline. -/
theorem faithful_outline (layout : Layout) (m : Metadata) (keyed : ∀ p ∈ g.elements.entries, p.1 = p.2.id) :
    print layout g m = layout.source (headerText (m.direction.getD layout.defaultDirection)) m
      ((Outline.ofElements g.elements fun _ => false).map (itemLine layout) ++
        (g.connections.values.map edgeText ++ (styled g.elements.values).map styleText).map
          (layout.indented 1)) ∧
      Faithful g.elements fun _ => false := by
  refine ⟨?_, Outline.faithful keyed _⟩
  rw [print, List.map_append, List.map_map, List.map_map, ← List.append_assoc]
  rfl

/-- A group under its id, with what it lists. -/
def boxed (id : String) (items : List Json) : String × Element :=
  (id, (Element.create .epoch id .container id).setProperty Element.childrenKey (.arr items))

/-- Two groups that list a third, which lists one of them again, an id that is missing, and a number. -/
def knotted : Graph :=
  ⟨⟨[boxed "a" [.str "c"], boxed "b" [.str "c", .str "n"],
    boxed "c" [.str "b", .str "ghost", .ofNat 7, .str "n"], ("n", .node .epoch "n" "n")], by decide⟩, ∅⟩

/-- The forest that a walk through them visits. -/
def knottedForest : Forest :=
  .group (boxed "a" [.str "c"]).2
    (.group (boxed "c" [.str "b", .str "ghost", .ofNat 7, .str "n"]).2
      (.group (boxed "b" [.str "c", .str "n"]).2 (.leaf (.node .epoch "n" "n") .nil) .nil) .nil) .nil

theorem explores_knotted :
    Explores knotted.elements (fun _ => false) [] (rootKeys knotted.elements fun _ => false) knottedForest := by
  have roots : rootKeys knotted.elements (fun _ => false) = ["a"] := by decide
  have inA : childKeys knotted.elements (boxed "a" [.str "c"]).2 = ["c"] := by decide
  have inB : childKeys knotted.elements (boxed "b" [.str "c", .str "n"]).2 = ["c", "n"] := by decide
  have inC : childKeys knotted.elements (boxed "c" [.str "b", .str "ghost", .ofNat 7, .str "n"]).2 = ["b", "n"] := by
    decide
  rw [roots]
  refine .group rfl rfl (by decide) rfl ?_ .done
  rw [inA]
  refine .group rfl rfl (by decide) rfl ?_ .done
  rw [inC]
  refine .group rfl rfl (by decide) rfl ?_ (.passed rfl (.inr (by decide)) .done)
  rw [inB]
  exact .passed rfl (.inr (by decide)) (.leaf rfl rfl (by decide) (by decide) .done)

theorem faithful_outline_knotted : (∀ p ∈ knotted.elements.entries, p.1 = p.2.id) ∧
    print .usual knotted (.create .epoch) = "\n".intercalate ["flowchart TD", "    subgraph a [a]",
      "        subgraph c [c]", "            subgraph b [b]", "                n[n]", "            end",
      "        end", "    end"] ∧
      Faithful knotted.elements fun _ => false := by
  have keyed : ∀ p ∈ knotted.elements.entries, p.1 = p.2.id := by decide
  obtain ⟨printed, faithful⟩ := faithful_outline .usual (.create .epoch) keyed
  rw [ofElements_of_explores explores_knotted] at printed
  exact ⟨keyed, printed, faithful⟩

end Flowchart

/-! ### Whether all is declared -/

/-- The dialects in which groups stand inside each other. -/
inductive Nesting where
  | flowchart
  | states
deriving DecidableEq, Repr

namespace Nesting

def dialect : Nesting → Dialect
  | flowchart => .flowchart
  | states => .states

/-- The elements that need no declaration: the terminal state of a state diagram. -/
def undeclared : Nesting → Element → Bool
  | flowchart, _ => false
  | states, e => e.id = States.terminal

def placedItem : Nesting → Outline.Item → Placed
  | flowchart => Flowchart.placedItem
  | states => States.placedItem

/-- The statements below the outline. They declare nothing. -/
def below : Nesting → Graph → List String
  | flowchart, g =>
    g.connections.values.map Flowchart.edgeText ++ (Flowchart.styled g.elements.values).map Flowchart.styleText
  | states, g => g.connections.values.map States.transitionText

/-- The elements that the source declares, in the order of its lines. -/
def declared (n : Nesting) (g : Graph) : List Element := Outline.shown g.elements n.undeclared

/-- The elements that the source has to declare. -/
def due (n : Nesting) (g : Graph) : List Element := g.elements.values.filter fun e => !n.undeclared e

theorem statements_eq (n : Nesting) (g : Graph) : n.dialect.statements g =
    (Outline.ofElements g.elements n.undeclared).map n.placedItem ++ (n.below g).map (Placed.mk 1) := by
  cases n with
  | flowchart =>
    show Flowchart.statements g = _
    rw [Flowchart.statements, below, List.map_append, List.map_map, List.map_map, ← List.append_assoc]
    rfl
  | states =>
    show States.statements g = _
    rw [States.statements, below, List.map_map]
    rfl

/-- The source is an outline with the joints below it. It declares everything once, if and only if
everything is reached from the top; that is so where nothing lies below itself and no group is left out. -/
theorem declares_all_iff_reached (n : Nesting) (layout : Layout) (m : Metadata)
    (keyed : ∀ p ∈ g.elements.entries, p.1 = p.2.id) :
    n.dialect.print layout g m = layout.source (n.dialect.header layout m) m
        (((Outline.ofElements g.elements n.undeclared).map n.placedItem ++
          (n.below g).map (Placed.mk 1)).map layout.line) ∧
      ((n.declared g).Perm (n.due g) ↔ ∀ e ∈ n.due g, Reached g.elements n.undeclared e.id) ∧
      ((∀ id, ¬ Relation.TransGen (Lists g.elements) id id) →
        (∀ e ∈ g.elements.values, n.undeclared e → e.kind ≠ .container) →
          (n.declared g).Perm (n.due g)) := by
  have whole : (n.declared g).Perm (n.due g) ↔ ∀ e ∈ n.due g, Reached g.elements n.undeclared e.id := by
    rw [declared, due, Outline.shown_perm_iff keyed]
    simp only [List.mem_filter, Bool.not_eq_true', and_imp]
  refine ⟨?_, whole, fun acyclic boxes => whole.2 fun e owed => ?_⟩
  · rw [Dialect.print_eq, statements_eq]
  · obtain ⟨there, kept⟩ := List.mem_filter.1 owed
    refine Outline.reached_of_acyclic keyed acyclic (fun x among box => ?_) there (by simpa using kept)
    exact Bool.eq_false_iff.2 fun left => boxes x among left box

/-- Two groups that list the same node, an id that is missing, and a number; and a terminal. -/
def shared : Graph :=
  ⟨⟨[Flowchart.boxed "a" [.str "n", .str "ghost"], Flowchart.boxed "b" [.ofNat 7, .str "n"],
    ("n", .node .epoch "n" "n"), (States.terminal, .node .epoch States.terminal "")], by decide⟩, ∅⟩

theorem declares_all_iff_reached_shared :
    ((∀ p ∈ shared.elements.entries, p.1 = p.2.id) ∧ (∀ id, ¬ Relation.TransGen (Lists shared.elements) id id) ∧
      (∀ e ∈ shared.elements.values, states.undeclared e → e.kind ≠ .container)) ∧
    (flowchart.declared shared).Perm shared.elements.values ∧
      (states.declared shared).Perm (shared.elements.values.take 3) := by
  have keyed : ∀ p ∈ shared.elements.entries, p.1 = p.2.id := by decide
  have acyclic : ∀ id, ¬ Relation.TransGen (Lists shared.elements) id id :=
    Outline.acyclic_of_ranked keyed (fun id => if id = "n" then 1 else 0) (by decide)
  have boxes : ∀ e ∈ shared.elements.values, states.undeclared e → e.kind ≠ .container := by decide
  have drawn := (declares_all_iff_reached flowchart .usual (.create .epoch) keyed).2.2 acyclic fun _ _ => nofun
  have told := (declares_all_iff_reached states .usual (.create .epoch) keyed).2.2 acyclic boxes
  exact ⟨⟨keyed, acyclic, boxes⟩, drawn, told⟩

/-- A group that lists itself. -/
def selfListed : Graph := ⟨⟨[Flowchart.boxed "g" [.str "g"]], by decide⟩, ∅⟩

/-- A group that lists itself is lost. -/
theorem not_declared_selfListed : (∀ p ∈ selfListed.elements.entries, p.1 = p.2.id) ∧
    Flowchart.print .usual selfListed (.create .epoch) = "flowchart TD" ∧
      ¬ (flowchart.declared selfListed).Perm (flowchart.due selfListed) := by
  have roots : rootKeys selfListed.elements flowchart.undeclared = [] := by decide
  have nothing : Outline.ofElements selfListed.elements flowchart.undeclared = [] :=
    ofElements_of_explores (f := .nil) (roots ▸ .done)
  refine ⟨by decide, ?_, ?_⟩
  · show Layout.source _ _ _ ((Outline.ofElements selfListed.elements flowchart.undeclared).map _ ++ _ ++ _) = _
    rw [nothing]
    decide
  · rw [declared, Outline.shown, nothing]
    decide

end Nesting
end DiagramText
