import DiagramText.Flowchart.Draft
import DiagramText.Proofs.Graph.Clock
import DiagramText.Proofs.Graph.Growth

/-! What a statement does to a flowchart draft: the graph only grows, and the clock leaves no trace
but the stamps. -/
namespace DiagramText.Flowchart

/-- The statements that lines say. Several stand on a line, and other texts say nothing. -/
def statementsOf (lines : List String) : List Statement :=
  (lines.flatMap fun line => statementTexts line.toList).filterMap Statement.ofText?

theorem statementsOf_append (xs ys : List String) : statementsOf (xs ++ ys) = statementsOf xs ++ statementsOf ys := by
  rw [statementsOf, List.flatMap_append, List.filterMap_append, statementsOf, statementsOf]

theorem statementsOf_cons (line : String) (lines : List String) :
    statementsOf (line :: lines) = statementsOf [line] ++ statementsOf lines := statementsOf_append [line] lines

/-- A line without semicolons says what it is read as. -/
theorem statementsOf_line {line : String} {s : Statement} (whole : ';' ∉ line.toList)
    (read : Statement.ofText? line.toList = some s) : statementsOf [line] = [s] := by
  have trimmed : Statement.ofText? (Text.trim line.toList) = some s := by
    rw [Statement.ofText?, Text.trim_trim]
    exact read
  have some : Text.trim line.toList ≠ [] := by
    intro none
    rw [none] at trimmed
    cases trimmed
  have texts : statementTexts line.toList = [Text.trim line.toList] := by
    rw [statementTexts, Text.unquotedPieces_eq_singleton whole, List.map_singleton]
    exact List.filter_cons_of_pos (by simpa using some)
  rw [statementsOf, List.flatMap_singleton, texts, List.filterMap_cons_some trimmed, List.filterMap_nil]

namespace Draft

open DiagramText.Graph (Growth)

theorem foldl_readText (now : Instant) (d : Draft) (texts : List (List Char)) :
    texts.foldl (readText now) d = (texts.filterMap Statement.ofText?).foldl (apply now) d := by
  induction texts generalizing d with
  | nil => rfl
  | cons text texts ih =>
    rw [List.foldl_cons, ih, readText, List.filterMap_cons]
    cases Statement.ofText? text <;> rfl

theorem readLine_eq (now : Instant) (d : Draft) (line : String) :
    d.readLine now line = (statementsOf [line]).foldl (apply now) d := by
  rw [readLine, foldl_readText, statementsOf, List.flatMap_singleton]

theorem foldl_readLine (now : Instant) (d : Draft) (lines : List String) :
    lines.foldl (readLine now) d = (statementsOf lines).foldl (apply now) d := by
  rw [statementsOf, ← foldl_readText, List.foldl_flatMap]
  rfl

/-! ### Growth -/

theorem describe_id (ref : NodeRef) (e : Element) : (describe ref e).id = e.id := by
  unfold describe
  cases ref.body <;> cases ref.styleClass <;> rfl

theorem setStyles_id (declarations : List (String × String)) (e : Element) :
    (setStyles declarations e).id = e.id := by
  unfold setStyles
  induction declarations generalizing e with
  | nil => rfl
  | cons kv rest ih => exact ih _

theorem growth_enlist (d : Draft) (id : String) : Growth d.graph (d.enlist id).graph := by
  unfold enlist
  split
  · exact .same
  · exact Graph.growth_appendTo ..

theorem growth_declare (now : Instant) (d : Draft) (ref : NodeRef) :
    Growth d.graph (d.declare now ref).graph := by
  have made : Growth d.graph ((d.graph.ensure ref.id (newNode now ref.id)).modifyElement ref.id
      (describe ref)) :=
    .change _ _ (Graph.growth_ensure _ _ _ fun _ => rfl) (describe_id ref)
  unfold declare
  dsimp only
  split
  · exact made
  · exact made.trans (growth_enlist ⟨_, d.groups⟩ ref.id)

theorem hasElement_declare (now : Instant) (d : Draft) (ref : NodeRef) :
    (d.declare now ref).graph.hasElement ref.id := by
  have made : ((d.graph.ensure ref.id (newNode now ref.id)).modifyElement ref.id
      (describe ref)).hasElement ref.id :=
    (Growth.change ref.id (describe ref) .same (describe_id ref)).hasElement
      (Graph.hasElement_ensure ..)
  unfold declare
  dsimp only
  split
  · exact made
  · exact (growth_enlist ⟨_, d.groups⟩ ref.id).hasElement made

theorem growth_addLinks (now : Instant) (d : Draft) (source : String) (links : List Link)
    (there : d.graph.hasElement source) : Growth d.graph (addLinks now d source links).graph := by
  induction links generalizing d source with
  | nil => exact .same
  | cons l ls ih =>
    have declared := growth_declare now d l.target
    have target := hasElement_declare now d l.target
    have linked := Growth.link now source l.target.id l.arrow.key (l.label.getD "") [] declared
      (declared.hasElement there) target
    exact linked.trans (ih ⟨_, _⟩ l.target.id ((Growth.link now source l.target.id l.arrow.key
      (l.label.getD "") [] .same (declared.hasElement there) target).hasElement target))

theorem growth_openGroup (now : Instant) (d : Draft) (id label : String) :
    Growth d.graph (d.openGroup now id label).graph := by
  unfold openGroup
  dsimp only
  generalize (if id = "" then _ else id) = name
  split
  · exact .same
  · exact (Graph.growth_addElement d.graph (newGroup now name label)).trans
      (growth_enlist ⟨_, d.groups⟩ name)

theorem growth_restyle (g : Graph) (ids : List String) (declarations : List (String × String)) :
    Growth g (ids.foldl (fun g id => g.modifyElement id (setStyles declarations)) g) := by
  induction ids generalizing g with
  | nil => exact .same
  | cons id ids ih => exact (Growth.change id _ .same (setStyles_id declarations)).trans (ih _)

/-- One statement, of whatever kind and wherever it stands. -/
theorem growth_apply (now : Instant) (d : Draft) (s : Statement) :
    Growth d.graph (d.apply now s).graph := by
  cases s with
  | node ref => exact growth_declare now d ref
  | chain head links =>
    exact (growth_declare now d head).trans
      (growth_addLinks now _ head.id links (hasElement_declare now d head))
  | subgraph id label => exact growth_openGroup now d id label
  | close => exact .same
  | style ids declarations => exact growth_restyle d.graph ids declarations
  | direction => exact .same

theorem growth_readLine (now : Instant) (d : Draft) (line : String) :
    Growth d.graph (d.readLine now line).graph := by
  rw [readLine_eq]
  induction statementsOf [line] generalizing d with
  | nil => exact .same
  | cons s statements ih => exact (growth_apply now d s).trans (ih _)

/-! ### The clock -/

def retimed (now : Instant) (d : Draft) : Draft := { d with graph := d.graph.retimed now }

theorem retimed_describe (now : Instant) (ref : NodeRef) (e : Element) :
    (describe ref e).retimed now = describe ref (e.retimed now) := by
  unfold describe
  cases ref.body <;> cases ref.styleClass <;> rfl

theorem retimed_setStyles (now : Instant) (declarations : List (String × String)) (e : Element) :
    (setStyles declarations e).retimed now = setStyles declarations (e.retimed now) := by
  unfold setStyles
  induction declarations generalizing e with
  | nil => rfl
  | cons kv rest ih => exact ih _

theorem retimed_enlist (now : Instant) (d : Draft) (id : String) :
    (d.enlist id).retimed now = (d.retimed now).enlist id := by
  obtain ⟨g, groups⟩ := d
  cases groups with
  | nil => rfl
  | cons group groups =>
    simp only [enlist, retimed]
    rw [Graph.retimed_appendTo]

theorem retimed_declare (now later : Instant) (d : Draft) (ref : NodeRef) :
    (d.declare now ref).retimed later = (d.retimed later).declare later ref := by
  have made : ((d.graph.ensure ref.id (newNode now ref.id)).modifyElement ref.id
      (describe ref)).retimed later = ((d.graph.retimed later).ensure ref.id
        (newNode later ref.id)).modifyElement ref.id (describe ref) := by
    rw [Graph.retimed_modifyElement ref.id (retimed_describe later ref),
      Graph.retimed_ensure ref.id fun n => rfl]
    rfl
  unfold declare
  simp only [retimed, Graph.hasElement_retimed] at made ⊢
  split
  · rw [made]
  · rw [← made]
    exact retimed_enlist later _ _

theorem retimed_addLinks (now later : Instant) (d : Draft) (source : String) (links : List Link) :
    (addLinks now d source links).retimed later = addLinks later (d.retimed later) source links := by
  induction links generalizing d source with
  | nil => rfl
  | cons l ls ih =>
    simp only [addLinks]
    rw [ih, ← retimed_declare now later d l.target]
    simp only [retimed, Graph.retimed_connect]

theorem retimed_openGroup (now later : Instant) (d : Draft) (id label : String) :
    (d.openGroup now id label).retimed later = (d.retimed later).openGroup later id label := by
  simp only [openGroup, retimed, Graph.hasElement_retimed, Graph.size_elements_retimed]
  generalize (if id = "" then _ else id) = name
  split
  · rfl
  · have added : (d.graph.addElement (newGroup now name label)).retimed later =
        (d.graph.retimed later).addElement (newGroup later name label) :=
      Graph.retimed_addElement rfl
    rw [← added]
    have enlisted := retimed_enlist later ⟨d.graph.addElement (newGroup now name label), d.groups⟩ name
    exact congrArg (fun d => ({ d with groups := name :: d.groups } : Draft)) enlisted

theorem retimed_restyle (later : Instant) (g : Graph) (ids : List String)
    (declarations : List (String × String)) :
    (ids.foldl (fun g id => g.modifyElement id (setStyles declarations)) g).retimed later =
      ids.foldl (fun g id => g.modifyElement id (setStyles declarations)) (g.retimed later) := by
  induction ids generalizing g with
  | nil => rfl
  | cons id ids ih =>
    rw [List.foldl_cons, ih, Graph.retimed_modifyElement id (retimed_setStyles later declarations)]
    rfl

theorem retimed_apply (now later : Instant) (d : Draft) (s : Statement) :
    (d.apply now s).retimed later = (d.retimed later).apply later s := by
  cases s with
  | node ref => exact retimed_declare now later d ref
  | chain head links =>
    simp only [apply]
    rw [retimed_addLinks, retimed_declare]
  | subgraph id label => exact retimed_openGroup now later d id label
  | close => rfl
  | style ids declarations => simp only [apply, retimed, retimed_restyle]
  | direction => rfl

theorem retimed_readLine (now later : Instant) (d : Draft) (line : String) :
    (d.readLine now line).retimed later = (d.retimed later).readLine later line := by
  rw [readLine_eq, readLine_eq]
  induction statementsOf [line] generalizing d with
  | nil => rfl
  | cons s statements ih => rw [List.foldl_cons, ih, retimed_apply, List.foldl_cons]

end Draft
end DiagramText.Flowchart
