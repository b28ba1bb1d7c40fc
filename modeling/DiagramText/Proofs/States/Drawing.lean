import DiagramText.Proofs.States.Soundness

/-! A printed outline of states read into a draft. Each state is drawn where its line stands, with the
label, the mark and the children that it had; the terminal state comes back with the first transition
that touches it. -/
namespace DiagramText.States

open Outline (Canvas Draws Forest Item Pen)
open Text (IsWord)

variable {now : Instant} {n : Nat} {e : Element}

/-- A new state that is declared is added to the canvas as it was declared. -/
theorem Draft.ofGraph_declare {groups : List String} {g : Graph} {id : String}
    (fresh : id ∉ g.elements.keys) (word : IsWord id) (f : Element → Element) :
    Canvas.ofGraph ((ensure now groups g id).modifyElement id f) groups =
      (Canvas.ofGraph g groups).add id (f (newState now id g.elements.entries.length)) := by
  have entries := entries_enlisted fresh groups
  rw [listers, if_neg (ne_terminal word)] at entries
  rw [ensure_of_fresh fresh, Graph.modifyElement_withElement]
  exact Canvas.ofGraph_withElement entries (connections_enlisted ..) fresh _

/-! ### The pen -/

open Draft (declared newState)

/-- The state that is drawn for an element. -/
def drawn (now : Instant) (opensBlock : Bool) (n : Nat) (e : Element) : Element :=
  declared (shownLabel? e) (pseudo? e) opensBlock (newState now e.id n)

variable {opensBlock : Bool}

theorem drawn_id (n : Nat) (e : Element) : (drawn now opensBlock n e).id = e.id :=
  (Draft.declared_id ..).trans (Draft.newState_id ..)

theorem drawn_kind (n : Nat) (e : Element) :
    (drawn now opensBlock n e).kind = if opensBlock then .container else .node := by
  rw [drawn, Draft.declared_kind, Draft.newState_kind]

theorem drawn_label (word : IsWord e.id) (n : Nat) :
    (drawn now opensBlock n e).label = (shownLabel? e).getD e.id := by
  rw [drawn, Draft.declared_label, Draft.newState_label (ne_terminal word)]

theorem get?_pseudo_drawn (n : Nat) (e : Element) :
    (drawn now opensBlock n e).properties.get? pseudoKey = (pseudo? e).map fun p => .str p.name := by
  rw [drawn, Draft.get?_pseudo_declared, (Draft.get?_newState e.id).1, Option.or_none]

theorem get?_children_drawn (n : Nat) (e : Element) :
    (drawn now opensBlock n e).properties.get? Element.childrenKey =
      if opensBlock then some (.ofStrings []) else none := by
  rw [drawn, Draft.get?_children_declared, (Draft.get?_newState e.id).2]
  rfl

/-- States are drawn with an empty list of children if they open a block, and without a list if not. -/
def pen (now : Instant) : Pen where
  leaf n e := drawn now false n e
  box n e := drawn now true n e
  leaf_id := drawn_id
  box_id := drawn_id
  leaf_kind n e := by simp [drawn_kind]
  box_kind n e := by simp [drawn_kind]
  box_children n e := by simp [get?_children_drawn]

/-! ### What is read back -/

/-- A label comes back as quotes carry it, also one that is the id and has no quotes. -/
theorem getD_shownLabel? (word : IsWord e.id) (some : e.label ≠ "") :
    (shownLabel? e).getD e.id = Text.requoted e.label := by
  unfold shownLabel?
  by_cases own : e.label = e.id
  · rw [if_pos (.inr own), own, word.quotable.requoted, Option.getD_none]
  · rw [if_neg (by simp [some, own]), Option.getD_some]

variable {x : Element}

/-- What is read of a label is no id, if the label is none. -/
theorem nameChars_of_label (word : IsWord e.id) (id : x.id = e.id)
    (label : x.label = (shownLabel? e).getD e.id) : nameChars x = nameChars e := by
  unfold nameChars
  rw [id, label, shownLabel?]
  by_cases bare : e.label = "" ∨ e.label = e.id
  · rw [if_pos bare, if_pos bare, Option.getD_none, if_pos (.inr rfl)]
  · rw [if_neg bare, if_neg bare, Option.getD_some, Text.quoted_requoted, if_neg]
    rintro (empty | own)
    · exact bare (.inl (Text.requoted_eq_empty_iff.1 empty))
    · have same := Text.eq_of_requoted_word (own ▸ word : IsWord (Text.requoted e.label))
      exact bare (.inr (same ▸ own))

/-- A state that is drawn is declared in the same words. -/
theorem declarationText_of_label (word : IsWord e.id) (id : x.id = e.id)
    (label : x.label = (shownLabel? e).getD e.id)
    (mark : x.properties.get? pseudoKey = (pseudo? e).map fun p => .str p.name) :
    declarationText x = declarationText e := by
  apply String.toList_inj.1
  rw [toList_declarationText, toList_declarationText, nameChars_of_label word id label,
    pseudo?_of_get? mark]

/-- The outline of a drawn forest is printed as the outline of the forest. -/
theorem map_itemLine_redraw (layout : Layout) {f : Forest} (words : ∀ e ∈ f.preorder, IsWord e.id)
    (n depth : Nat) :
    (((pen now).redraw n f).items depth).map (itemLine layout) = (f.items depth).map (itemLine layout) := by
  apply Pen.map_items_redraw
  · intro n e there depth
    have same : declarationText ((pen now).leaf n e) = declarationText e :=
      declarationText_of_label (words e there) (drawn_id n e) (drawn_label (words e there) n)
        (get?_pseudo_drawn n e)
    exact congrArg (layout.indented depth) same
  · intro n e there listed depth
    have mark : ((pen now).group n e listed).properties.get? pseudoKey =
        (pseudo? e).map fun p => .str p.name := by
      rw [Pen.group, Element.setProperty, Table.get?_insert, if_neg (by decide)]
      exact get?_pseudo_drawn n e
    have same : declarationText ((pen now).group n e listed) = declarationText e :=
      declarationText_of_label (words e there) (drawn_id n e) (drawn_label (words e there) n) mark
    exact congrArg (fun text => layout.indented depth (text ++ " \x7b")) same

/-! ### The outline -/

namespace Draft

def canvas (d : Draft) : Canvas := .ofGraph d.graph d.groups

end Draft

/-- Reading the lines of an outline of named states draws it. -/
theorem draws (now : Instant) :
    Draws (fun (d : Draft) item => d.apply now (itemStatement item)) Draft.canvas (pen now)
      (fun e => IsWord e.id) where
  leaf word _ fresh := Draft.ofGraph_declare fresh word _
  opens {d e _} word _ fresh := by
    let opened (c : Canvas) : Canvas := { c with groups := e.id :: d.groups }
    exact congrArg opened (Draft.ofGraph_declare fresh word _)
  closes := rfl

/-! ### Transitions -/

/-- The terminal state is there as soon as a transition has touched it. -/
def withTerminal (now : Instant) (g : Graph) (touched : Bool) : Graph :=
  if touched then g.ensure terminal (newState now terminal) else g

theorem ensure_withTerminal {g : Graph} {id : String} (known : id = terminal ∨ g.hasElement id)
    (touched : Bool) : Draft.ensure now [] (withTerminal now g touched) id =
      withTerminal now g (touched || id = terminal) := by
  have unlisted : Draft.enlisted [] (withTerminal now g touched) id = withTerminal now g touched := by
    unfold Draft.enlisted
    split <;> rfl
  rw [Draft.ensure_eq, unlisted]
  rcases known with rfl | there
  · cases touched with
    | false => simp [withTerminal]
    | true =>
      rw [withTerminal, if_pos rfl, Graph.ensure_of_hasElement (Graph.hasElement_ensure ..)]
      simp [withTerminal]
  · have still : (withTerminal now g touched).hasElement id := by
      unfold withTerminal
      split
      · exact (Graph.growth_ensure g terminal _ (Draft.newState_id now terminal)).hasElement there
      · exact there
    rw [Graph.ensure_of_hasElement still]
    by_cases own : id = terminal
    · subst own
      have same : g.ensure terminal (newState now terminal) = g := Graph.ensure_of_hasElement there
      simp [withTerminal, same]
    · simp [own]

/-- What the connection of a transition is made from. -/
def transitionJoint (c : Connection) : Graph.Joint :=
  ⟨c.source, c.target, transitionKind, (transitionLabel? c).getD "", []⟩

theorem connectAll_withTerminal (g : Graph) (touched : Bool) (joints : List Graph.Joint) :
    (withTerminal now g touched).connectAll now joints =
      withTerminal now (g.connectAll now joints) touched := by
  cases touched with
  | false => rfl
  | true => exact Graph.connectAll_ensure ..

/-- Transitions between states that are there are added in order, and the terminal state with them. -/
theorem foldl_transitions {g : Graph} {cs : List Connection}
    (known : ∀ c ∈ cs, (c.source = terminal ∨ g.hasElement c.source) ∧
      (c.target = terminal ∨ g.hasElement c.target)) (touched : Bool) :
    cs.foldl (fun (d : Draft) c => d.apply now (transitionStatement c)) ⟨withTerminal now g touched, []⟩ =
      ⟨withTerminal now (g.connectAll now (cs.map transitionJoint))
        (touched || cs.any (·.touches terminal)), []⟩ := by
  induction cs generalizing g touched with
  | nil => simp [Graph.connectAll]
  | cons c cs ih =>
    rw [List.forall_mem_cons] at known
    have one : Draft.apply now ⟨withTerminal now g touched, []⟩ (transitionStatement c) =
        ⟨withTerminal now (g.connectAll now [transitionJoint c]) (touched || c.touches terminal), []⟩ := by
      rw [← connectAll_withTerminal]
      simp only [transitionStatement, Draft.apply, ensure_withTerminal known.1.1,
        ensure_withTerminal known.1.2, Connection.touches, Bool.or_assoc]
      rfl
    have still : ∀ d ∈ cs, (d.source = terminal ∨
        (g.connectAll now [transitionJoint c]).hasElement d.source) ∧
        (d.target = terminal ∨ (g.connectAll now [transitionJoint c]).hasElement d.target) := by
      intro d h
      rw [Graph.hasElement, Graph.hasElement, Graph.elements_connectAll]
      exact known.2 d h
    rw [List.foldl_cons, one, ih still, List.any_cons, Bool.or_assoc]
    rfl

end DiagramText.States
