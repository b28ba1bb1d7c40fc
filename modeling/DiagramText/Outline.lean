import DiagramText.Diagram.Graph

/-! The outline of a diagram: its elements depth first, each container with what it lists inside.
Every element is visited once at most, whatever the lists say. -/
namespace DiagramText.Outline

/-- One line of an outline. -/
inductive Item where
  | leaf (e : Element) (depth : Nat)
  | opens (e : Element) (depth : Nat)
  | closes (depth : Nat)
deriving DecidableEq, Repr

/-- What is still to be done: an element to enter by its key, or a container to leave. -/
inductive Task where
  | enter (key : String) (depth : Nat)
  | leave (depth : Nat)
deriving DecidableEq, Repr

/-- The keys that a container lists and that have an element. -/
def childKeys (elements : Table Element) (e : Element) : List String :=
  (e.listed Element.childrenKey).filter elements.contains

/-- The ids of the elements that some container lists. -/
def nestedIds (elements : Table Element) : List String :=
  (elements.values.filter fun e => e.kind = .container).flatMap fun e =>
    (childKeys elements e).filterMap fun k => (elements.get? k).map (·.id)

def unvisited (elements : Table Element) (visited : List String) : List Element :=
  elements.values.filter fun e => !visited.contains e.id

theorem unvisited_lt {elements : Table Element} {visited : List String} {e : Element}
    (he : e ∈ elements.values) (hv : e.id ∉ visited) :
    (unvisited elements (e.id :: visited)).length < (unvisited elements visited).length := by
  have hsub : unvisited elements (e.id :: visited) =
      (unvisited elements visited).filter fun x => x.id != e.id := by
    simp only [unvisited, List.filter_filter]
    congr 1; funext x
    simp only [List.contains_cons, bne, Bool.not_or]
  rw [hsub]
  apply List.length_filter_lt_length_iff_exists.2
  exact ⟨e, by simp [unvisited, he, hv], by simp⟩

def walk (elements : Table Element) (skip : Element → Bool) (visited : List String) :
    List Task → List Item
  | [] => []
  | .leave depth :: tasks => .closes depth :: walk elements skip visited tasks
  | .enter key depth :: tasks =>
    match h : elements.get? key with
    | none => walk elements skip visited tasks
    | some e =>
      if hv : skip e = true ∨ e.id ∈ visited then walk elements skip visited tasks
      else if e.kind = .container then
        .opens e depth :: walk elements skip (e.id :: visited)
          ((childKeys elements e).map (.enter · (depth + 1)) ++ .leave depth :: tasks)
      else .leaf e depth :: walk elements skip (e.id :: visited) tasks
termination_by tasks => ((unvisited elements visited).length, tasks.length)
decreasing_by
  all_goals simp_wf
  · exact .right _ (Nat.lt_succ_self _)
  · exact .right _ (Nat.lt_succ_self _)
  · exact .right _ (Nat.lt_succ_self _)
  · exact .left _ _ (unvisited_lt (Table.mem_values_of_get? h) fun m => hv (.inr m))
  · exact .left _ _ (unvisited_lt (Table.mem_values_of_get? h) fun m => hv (.inr m))

/-- The outline that starts from the elements that no container lists. -/
def ofElements (elements : Table Element) (skip : Element → Bool) : List Item :=
  let nested := nestedIds elements
  let roots := elements.entries.filter fun (_, e) => !skip e && !nested.contains e.id
  walk elements skip [] (roots.map fun (k, _) => .enter k 1)

end DiagramText.Outline
