import DiagramText.Proofs.Graph.Clock
import DiagramText.Proofs.Graph.Growth
import DiagramText.States.Draft

/-! What a statement does to a state draft: what it says of a state, how the graph only grows, and that
the clock leaves no trace but the stamps. -/
namespace DiagramText.States.Draft

open DiagramText.Graph (Growth)

/-- What a description says of a state that is there. -/
def relabel (description : String) (e : Element) : Element :=
  { e with label := if description = "" then e.label else description }

theorem apply_describe (now : Instant) (d : Draft) (id description : String) :
    d.apply now (.describe id description) =
      { d with graph := (ensure now d.groups d.graph id).modifyElement id (relabel description) } :=
  rfl

/-- Lists a state in the innermost open composite, before it is made. -/
def enlisted (groups : List String) (g : Graph) (id : String) : Graph :=
  if g.hasElement id ∨ id = terminal then g
  else match groups with
    | [] => g
    | group :: _ => g.appendTo group Element.childrenKey (.str id)

theorem ensure_eq (now : Instant) (groups : List String) (g : Graph) (id : String) :
    ensure now groups g id = (enlisted groups g id).ensure id (newState now id) := rfl

/-! ### What a new state is -/

section NewState

variable {now : Instant} {id : String} {n : Nat}

theorem newState_label (named : id ≠ terminal) : (newState now id n).label = id := by
  simp [newState, named, Element.setProperty, Element.moveTo, Element.node, Element.create]

theorem newState_kind (id : String) : (newState now id n).kind = .node := rfl

theorem get?_newState (id : String) : (newState now id n).properties.get? pseudoKey = none ∧
    (newState now id n).properties.get? Element.childrenKey = none := by
  constructor <;> rfl

theorem listed_newState (id : String) : (newState now id n).listed Element.childrenKey = [] := by
  rw [Element.listed, (get?_newState id).2]
  rfl

end NewState

/-! ### What a declaration says of a state -/

section Declared

variable {label : Option String} {pseudo : Option Pseudo} {opensBlock : Bool} {e : Element}

theorem mark_label (p : Pseudo) (e : Element) : (mark p e).label = e.label := by
  cases p <;> rfl

theorem mark_kind (p : Pseudo) (e : Element) : (mark p e).kind = e.kind := by
  cases p <;> rfl

theorem get?_mark (p : Pseudo) (e : Element) :
    (mark p e).properties.get? pseudoKey = some (.str p.name) ∧
      (mark p e).properties.get? Element.childrenKey = e.properties.get? Element.childrenKey := by
  have keys : pseudoKey ≠ Element.shapeKey ∧ Element.childrenKey ≠ Element.shapeKey ∧
      Element.childrenKey ≠ pseudoKey := by decide
  cases p <;> simp [mark, Element.setProperty, Table.get?_insert, keys]

theorem makeComposite_label (e : Element) : (makeComposite e).label = e.label := by
  unfold makeComposite
  dsimp only
  split <;> rfl

theorem makeComposite_kind (e : Element) : (makeComposite e).kind = .container := by
  unfold makeComposite
  dsimp only
  split <;> rfl

theorem get?_makeComposite (e : Element) :
    (makeComposite e).properties.get? pseudoKey = e.properties.get? pseudoKey ∧
      (makeComposite e).properties.get? Element.childrenKey =
        some ((e.properties.get? Element.childrenKey).getD (.arr [])) := by
  have keys : pseudoKey ≠ Element.childrenKey := by decide
  by_cases there : e.properties.contains Element.childrenKey
  · obtain ⟨list, found⟩ := Option.isSome_iff_exists.1 there
    simp [makeComposite, there, found]
  · have none : e.properties.get? Element.childrenKey = none := by simpa [Table.contains] using there
    simp [makeComposite, there, none, Element.setProperty, Table.get?_insert, keys]

theorem declared_label : (declared label pseudo opensBlock e).label = label.getD e.label := by
  cases pseudo <;> cases opensBlock <;> simp [declared, mark_label, makeComposite_label]

theorem declared_kind :
    (declared label pseudo opensBlock e).kind = if opensBlock then .container else e.kind := by
  cases pseudo <;> cases opensBlock <;> simp [declared, mark_kind, makeComposite_kind]

theorem get?_pseudo_declared : (declared label pseudo opensBlock e).properties.get? pseudoKey =
    (pseudo.map fun p => .str p.name).or (e.properties.get? pseudoKey) := by
  cases pseudo <;> cases opensBlock <;> simp [declared, get?_mark, get?_makeComposite]

theorem get?_children_declared :
    (declared label pseudo opensBlock e).properties.get? Element.childrenKey =
      if opensBlock then some ((e.properties.get? Element.childrenKey).getD (.arr []))
      else e.properties.get? Element.childrenKey := by
  cases pseudo <;> cases opensBlock <;> simp [declared, get?_mark, get?_makeComposite]

/-- A declaration leaves the children as they are. -/
theorem listed_declared (label : Option String) (pseudo : Option Pseudo) (opensBlock : Bool) (e : Element) :
    (declared label pseudo opensBlock e).listed Element.childrenKey = e.listed Element.childrenKey := by
  unfold Element.listed
  rw [get?_children_declared]
  cases opensBlock <;> cases e.properties.get? Element.childrenKey <;> rfl

end Declared

/-! ### Growth -/

theorem growth_enlisted (groups : List String) (g : Graph) (id : String) :
    Growth g (enlisted groups g id) := by
  unfold enlisted
  split
  · exact .same
  · split
    · exact .same
    · exact Graph.growth_appendTo ..

theorem newState_id (now : Instant) (id : String) (index : Nat) : (newState now id index).id = id := by
  unfold newState
  split <;> rfl

theorem growth_ensure (now : Instant) (groups : List String) (g : Graph) (id : String) :
    Growth g (ensure now groups g id) :=
  (growth_enlisted groups g id).trans (Graph.growth_ensure _ _ _ (newState_id now id))

theorem hasElement_ensure (now : Instant) (groups : List String) (g : Graph) (id : String) :
    (ensure now groups g id).hasElement id := Graph.hasElement_ensure ..

theorem mark_id (p : Pseudo) (e : Element) : (mark p e).id = e.id := by
  unfold mark
  dsimp only
  split <;> rfl

theorem makeComposite_id (e : Element) : (makeComposite e).id = e.id := by
  unfold makeComposite
  dsimp only
  split <;> rfl

theorem declared_id (label : Option String) (pseudo : Option Pseudo) (opensBlock : Bool)
    (e : Element) : (declared label pseudo opensBlock e).id = e.id := by
  cases pseudo <;> cases opensBlock <;> simp [declared, mark_id, makeComposite_id]

theorem growth_apply (now : Instant) (d : Draft) (s : Statement) :
    Growth d.graph (d.apply now s).graph := by
  cases s with
  | declare id label pseudo opensBlock =>
    exact .change _ _ (growth_ensure now d.groups d.graph id) (declared_id label pseudo opensBlock)
  | close => exact .same
  | transition source target label =>
    have ends := (growth_ensure now d.groups d.graph source).trans (growth_ensure now d.groups _ target)
    exact .link now source target _ _ _ ends
      ((growth_ensure now d.groups _ target).hasElement (hasElement_ensure now d.groups _ source))
      (hasElement_ensure now d.groups _ target)
  | describe id description => exact .change _ _ (growth_ensure now d.groups d.graph id) fun _ => rfl

theorem growth_readLine (now : Instant) (d : Draft) (line : String) :
    Growth d.graph (d.readLine now line).graph := by
  unfold readLine
  split
  · exact growth_apply now d _
  · exact .same

/-! ### The clock -/

def retimed (now : Instant) (d : Draft) : Draft := { d with graph := d.graph.retimed now }

variable {now later : Instant}

theorem retimed_enlisted (groups : List String) (g : Graph) (id : String) :
    (enlisted groups g id).retimed later = enlisted groups (g.retimed later) id := by
  unfold enlisted
  rw [Graph.hasElement_retimed]
  split
  · rfl
  · cases groups with
    | nil => rfl
    | cons group groups => exact Graph.retimed_appendTo ..

theorem retimed_newState (id : String) (index : Nat) :
    (newState now id index).retimed later = newState later id index := by
  unfold newState
  split <;> rfl

theorem retimed_ensure (groups : List String) (g : Graph) (id : String) :
    (ensure now groups g id).retimed later = ensure later groups (g.retimed later) id := by
  rw [ensure_eq, Graph.retimed_ensure id (retimed_newState id), retimed_enlisted, ensure_eq]

theorem retimed_mark (p : Pseudo) (e : Element) :
    (mark p e).retimed later = mark p (e.retimed later) := by
  cases p <;> rfl

theorem retimed_makeComposite (e : Element) :
    (makeComposite e).retimed later = makeComposite (e.retimed later) := by
  by_cases listed : e.properties.contains Element.childrenKey <;>
    simp [makeComposite, Element.retimed, Element.setProperty, listed]

theorem retimed_declared (label : Option String) (pseudo : Option Pseudo) (opensBlock : Bool)
    (e : Element) : (declared label pseudo opensBlock e).retimed later =
      declared label pseudo opensBlock (e.retimed later) := by
  cases pseudo <;> cases opensBlock <;>
    simp [declared, retimed_mark, retimed_makeComposite] <;> rfl

theorem retimed_apply (d : Draft) (s : Statement) :
    (d.apply now s).retimed later = (d.retimed later).apply later s := by
  cases s with
  | declare id label pseudo opensBlock =>
    simp only [apply, retimed]
    rw [Graph.retimed_modifyElement id (retimed_declared label pseudo opensBlock), retimed_ensure]
  | close => rfl
  | transition source target label =>
    simp only [apply, retimed]
    rw [Graph.retimed_connect, retimed_ensure, retimed_ensure]
  | describe id description =>
    simp only [apply_describe, retimed]
    rw [Graph.retimed_modifyElement id (f := relabel description) fun _ => rfl, retimed_ensure]

theorem retimed_readLine (d : Draft) (line : String) :
    (d.readLine now line).retimed later = (d.retimed later).readLine later line := by
  unfold readLine
  split
  · exact retimed_apply d _
  · rfl

end DiagramText.States.Draft
