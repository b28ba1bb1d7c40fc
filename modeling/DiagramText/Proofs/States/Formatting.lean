import DiagramText.Proofs.Formatting
import DiagramText.Proofs.States.Drawing

/-! Formatting of state diagrams. The states but the terminal one are nested like a forest, which is
printed as blocks and drawn again; the transitions after them bring the terminal state back. So a
diagram that was read keeps its states, their marks, their nesting and its transitions, and is printed
as it was. -/
namespace DiagramText.States

open Outline (Forest Planted Pen)
open Text (IsWord)

/-! ### The same states -/

/-- The same state, with its label on one line as far as source can carry the label. -/
structure SameState (e e' : Element) : Prop where
  id : e'.id = e.id
  kind : e'.kind = e.kind
  mark : e'.properties.get? pseudoKey = e.properties.get? pseudoKey
  children : e'.properties.get? Element.childrenKey = e.properties.get? Element.childrenKey
  label : e.label ≠ "" ∨ e.id = terminal → ¬ Text.quoteEntity <:+: e.label.toList →
    e'.label = Text.oneLine e.label

/-- The state as it is drawn again, with the label that its declaration shows. -/
structure Redraws (e e' : Element) : Prop where
  id : e'.id = e.id
  kind : e'.kind = e.kind
  mark : e'.properties.get? pseudoKey = e.properties.get? pseudoKey
  children : e'.properties.get? Element.childrenKey = e.properties.get? Element.childrenKey
  label : e'.label = (shownLabel? e).getD e.id

/-- A connection with its label on one line. -/
def flat (c : Connection) : Connection := { c with label := Text.oneLine c.label }

/-- The same states, in whatever order, and the same transitions in order. -/
structure SameStates (g h : Graph) : Prop where
  ids : h.elements.keys.Perm g.elements.keys
  states : ∀ e ∈ g.elements.values, ∃ e', h.element? e.id = some e' ∧ SameState e e'
  transitions : h.connections.values.map Connection.drawn =
    g.connections.values.map fun c => (flat c).drawn

/-! ### The forest of the named states -/

/-- The elements but the terminal state. -/
def named (g : Graph) : Table Element := g.elements.erase terminal

theorem mem_named {g : Graph} {e : Element} (there : e ∈ (named g).values) : e ∈ g.elements.values := by
  obtain ⟨p, hp, rfl⟩ := Table.mem_values_iff.1 there
  exact Table.mem_values_iff.2 ⟨p, List.mem_of_mem_filter hp, rfl⟩

theorem get?_named {g : Graph} {id : String} (other : id ≠ terminal) :
    (named g).get? id = g.elements.get? id := by rw [named, Table.get?_erase, if_neg other]

variable {g h : Graph} {groups : List String} {f : Forest} {later : Instant}

namespace Draft.Settled

theorem planted_named (settled : Settled groups g) : Planted (named g).entries :=
  settled.planted.erase settled.unlisted

theorem word (settled : Settled groups g) {e : Element} (there : e ∈ (named g).values) : IsWord e.id := by
  obtain ⟨p, hp, rfl⟩ := Table.mem_values_iff.1 there
  refine (settled.states _ (mem_named there)).ref.resolve_right fun own => ?_
  have key := settled.planted.keyed p (List.mem_of_mem_filter hp)
  have other : p.1 ≠ terminal := by simpa using (List.mem_filter.1 hp).2
  exact other (key.trans own)

theorem mem_values_named (settled : Settled groups g) {e : Element} (there : e ∈ g.elements.values)
    (other : e.id ≠ terminal) : e ∈ (named g).values := by
  obtain ⟨p, hp, rfl⟩ := Table.mem_values_iff.1 there
  refine Table.mem_values_iff.2 ⟨p, ?_, rfl⟩
  rw [named, Table.erase, Table.entries_filter, List.mem_filter]
  exact ⟨hp, by simpa [settled.planted.keyed p hp] using other⟩

/-- What is open is closed at the end of the source. -/
theorem closed (settled : Settled groups g) : Settled [] g :=
  ⟨settled.planted, settled.states, settled.unlisted, by simp⟩

/-- The outline skips the terminal state, which is nowhere in it. -/
theorem ofElements_eq (settled : Settled groups g) :
    Outline.ofElements g.elements (fun e => e.id = terminal) =
      Outline.ofElements (named g) fun _ => false := by
  refine Outline.ofElements_erase settled.planted.keyed (fun e there own box => ?_) settled.unlisted
  exact absurd (((settled.states e there).plain own).1.symm.trans box) (by decide)

end Draft.Settled

/-! ### Read again -/

/-- What is read of a printed diagram: the forest as it is drawn, the terminal state if a transition
touches it, and the transitions with their labels on one line. -/
structure Redrawn (later : Instant) (g : Graph) (f : Forest) (h : Graph) : Prop where
  entries : h.elements.entries = ((pen later).redraw 0 f).entries ++
    if g.connections.values.any (·.touches terminal) then
      [(terminal, Draft.newState later terminal f.ids.length)] else []
  transitions : h.connections.values.map Connection.drawn =
    g.connections.values.map fun c => (flat c).drawn

theorem getD_transitionLabel? {c : Connection} (tight : Text.trimmed c.label = c.label) :
    (transitionLabel? c).getD "" = Text.oneLine c.label := by
  unfold transitionLabel?
  split
  · rfl
  · next blank =>
    rw [Connection.hasLabel_iff tight, ne_eq, Decidable.not_not] at blank
    rw [blank]
    rfl

/-- The lines of a diagram without their indentation. -/
def bodyTexts (f : Forest) (g : Graph) : List String :=
  (f.items 1).map itemText ++ g.connections.values.map transitionText

theorem foldl_readLine_said {α : Type} {text : α → String} {meaning : α → Statement} {as : List α}
    (said : ∀ a ∈ as, Source.Says statement (text a) (meaning a)) (d : Draft) :
    (as.map text).foldl (Draft.readLine later) d = as.foldl (fun d a => d.apply later (meaning a)) d := by
  rw [List.foldl_map]
  refine List.foldl_ext _ _ _ fun d a there => ?_
  rw [Draft.readLine, Statement.ofText?, (said a there).whole?]

theorem said_items (words : ∀ e ∈ f.preorder, IsWord e.id) (depth : Nat) :
    ∀ item ∈ f.items depth, Source.Says statement (itemText item) (itemStatement item) :=
  Forest.forall_items (fun e there => says_leaf (words e there))
    (fun e there => says_opens (words e there)) (fun _ => says_close) depth

/-- A graph of a sound draft whose named states are a forest. -/
structure IsForested (g : Graph) (f : Forest) : Prop where
  settled : Draft.Settled [] g
  shown : f.Shows (named g)
  all : f.ids.Perm (named g).keys

namespace IsForested

theorem words (forested : IsForested g f) : ∀ e ∈ f.preorder, IsWord e.id :=
  fun e there => forested.settled.word (Table.mem_values_of_get? (forested.shown.get? e there))

theorem distinct (forested : IsForested g f) : f.ids.Nodup :=
  forested.all.nodup_iff.2 (named g).nodup

theorem mem_ids_iff (forested : IsForested g f) {id : String} :
    id ∈ f.ids ↔ g.hasElement id ∧ id ≠ terminal := by
  rw [forested.all.mem_iff, ← Table.contains_iff, Table.contains, named, Table.get?_erase]
  split
  · next own => simp [own]
  · next other => simp [other, Graph.hasElement, Table.contains]

/-- Both ends of a transition are named states, or the terminal state. -/
theorem known (forested : IsForested g f) (closed : g.Closed) :
    ∀ c ∈ g.connections.values, (c.source = terminal ∨ c.source ∈ f.ids) ∧
      (c.target = terminal ∨ c.target ∈ f.ids) := by
  intro c there
  have joined := closed c there
  rw [Graph.joins, Bool.and_eq_true] at joined
  have known {id : String} (has : g.hasElement id) : id = terminal ∨ id ∈ f.ids := by
    by_cases own : id = terminal
    · exact .inl own
    · exact .inr (forested.mem_ids_iff.2 ⟨has, own⟩)
  exact ⟨known joined.1, known joined.2⟩

end IsForested

theorem said_transitions {d : Draft} (sound : d.Sound) : ∀ c ∈ d.graph.connections.values,
    Source.Says statement (transitionText c) (transitionStatement c) := by
  intro c there
  have joined := sound.closed c there
  rw [Graph.joins, Bool.and_eq_true] at joined
  have ref {id : String} (has : d.graph.hasElement id) : IsRef id := by
    obtain ⟨e, found⟩ := Option.isSome_iff_exists.1 has
    rw [← Outline.id_of_get? sound.settled.planted.keyed found]
    exact (sound.settled.states e (Table.mem_values_of_get? found)).ref
  exact says_transitionText (ref joined.1) (ref joined.2) (sound.transitions c there).2

/-- The draft after the outline: the drawn forest, without any transition. -/
theorem foldl_items (later : Instant) (forested : IsForested g f) : ∃ h : Graph,
    (f.items 1).foldl (fun (d : Draft) item => d.apply later (itemStatement item)) .empty = ⟨h, []⟩ ∧
      h.elements.entries = ((pen later).redraw 0 f).entries ∧ h.connections = ∅ := by
  let d := (f.items 1).foldl (fun (d : Draft) item => d.apply later (itemStatement item)) .empty
  have canvas : d.canvas = Draft.empty.canvas.drawn (pen later) f :=
    (draws later).forest .empty f 1 (by simp [Outline.Canvas.IsOpen, Draft.canvas, Draft.empty,
      Outline.Canvas.ofGraph]) forested.words forested.distinct
      (by simp [Draft.canvas, Draft.empty, Outline.Canvas.ofGraph, Outline.Canvas.ids, Graph.empty])
  have closed : d.groups = [] := congrArg Outline.Canvas.groups canvas
  exact ⟨d.graph, by rw [← closed], congrArg Outline.Canvas.entries canvas,
    congrArg Outline.Canvas.connections canvas⟩

/-- Read again, the lines of a diagram draw its forest and its transitions. -/
theorem redrawn_read (later : Instant) {d : Draft} (sound : d.Sound) (forested : IsForested d.graph f) :
    Redrawn later d.graph f (read later (bodyTexts f d.graph)) := by
  let cs := d.graph.connections.values
  obtain ⟨h, outline, entries, none⟩ := foldl_items later forested
  have keys : h.elements.keys = f.ids := by rw [Table.keys, entries, Pen.keys_redraw]
  have known : ∀ c ∈ cs, (c.source = terminal ∨ h.hasElement c.source) ∧
      (c.target = terminal ∨ h.hasElement c.target) := by
    intro c there
    rw [Graph.hasElement_iff, Graph.hasElement_iff, keys]
    exact forested.known sound.closed c there
  have whole : read later (bodyTexts f d.graph) =
      withTerminal later (h.connectAll later (cs.map transitionJoint)) (cs.any (·.touches terminal)) := by
    rw [read, bodyTexts, List.foldl_append, foldl_readLine_said (said_items forested.words 1),
      foldl_readLine_said (said_transitions sound), outline]
    exact congrArg Draft.graph (foldl_transitions known false)
  have fresh : terminal ∉ (h.connectAll later (cs.map transitionJoint)).elements.keys := by
    rw [Graph.elements_connectAll, keys, forested.mem_ids_iff]
    exact fun h => h.2 rfl
  have size : (h.connectAll later (cs.map transitionJoint)).elements.size = f.ids.length := by
    rw [Graph.elements_connectAll, Table.size, entries, Pen.length_redraw]
  have numbered : h.Numbered := by
    unfold Graph.Numbered
    rw [none]
    rfl
  have transitions : (h.connectAll later (cs.map transitionJoint)).connections.values.map
      Connection.drawn = h.connections.values.map Connection.drawn ++ cs.map fun c => (flat c).drawn :=
    numbered.values_connectAll later fun c there id => by
      have kind := (sound.transitions c there).1
      have label := getD_transitionLabel? (sound.transitions c there).2
      simp [Graph.Joint.link, Graph.linkAs, transitionJoint, Connection.drawn, Connection.create, flat,
        kind, label]
  rw [none] at transitions
  rw [whole]
  constructor
  · unfold withTerminal
    split
    · rw [Graph.ensure_of_fresh fresh, Graph.entries_withElement fresh, size,
        Graph.elements_connectAll, entries]
    · rw [Graph.elements_connectAll, entries, List.append_nil]
  · unfold withTerminal
    split
    · rw [Graph.ensure_of_fresh fresh]
      exact transitions
    · exact transitions

/-- The terminal state is there just when a transition touches it. -/
theorem Draft.Sound.touches_iff {d : Draft} (sound : d.Sound) :
    (d.graph.connections.values.any fun c => c.touches terminal) ↔ d.graph.hasElement terminal := by
  rw [List.any_eq_true]
  constructor
  · rintro ⟨c, there, touches⟩
    have joined := sound.closed c there
    rw [Graph.joins, Bool.and_eq_true] at joined
    rw [Connection.touches, Bool.or_eq_true, decide_eq_true_eq, decide_eq_true_eq] at touches
    rcases touches with own | own
    · exact own ▸ joined.1
    · exact own ▸ joined.2
  · exact sound.touched

section

variable (redrawn : Redrawn later g f h) (forested : IsForested g f)

include redrawn forested

theorem entries_named : (named h).entries = ((pen later).redraw 0 f).entries := by
  have others : ∀ p ∈ ((pen later).redraw 0 f).entries, p.1 ≠ terminal := by
    intro p there own
    have id : p.1 ∈ f.ids := by
      rw [← Pen.keys_redraw (pen later) 0 f]
      exact List.mem_map_of_mem there
    exact (forested.mem_ids_iff.1 id).2 own
  rw [named, Table.erase, Table.entries_filter, redrawn.entries, List.filter_append,
    List.filter_eq_self.2 (by simpa using others)]
  split <;> simp

theorem get?_redraw : ∀ e ∈ ((pen later).redraw 0 f).preorder,
    (named h).get? e.id = some e ∧ e.id ≠ terminal := by
  intro e there
  have id : e.id ∈ f.ids := by
    rw [← Pen.ids_redraw (pen later) 0 f]
    exact List.mem_map_of_mem there
  refine ⟨?_, (forested.mem_ids_iff.1 id).2⟩
  rw [Table.get?_eq_some_iff, entries_named redrawn forested]
  exact List.mem_map.2 ⟨e, there, rfl⟩

/-- Every named state is drawn as it is. -/
theorem redraws_named {e : Element} (there : e ∈ (named g).values) :
    ∃ e', h.element? e.id = some e' ∧ Redraws e e' := by
  have settled := forested.settled
  have inside : e ∈ f.preorder :=
    forested.shown.mem_preorder forested.all settled.planted_named.keyed there
  have word := settled.word there
  have isState := settled.states e (mem_named there)
  have found {x : Element} (drawn : x ∈ ((pen later).redraw 0 f).preorder) (own : x.id = e.id) :
      h.element? e.id = some x := by
    obtain ⟨stored, other⟩ := get?_redraw redrawn forested x drawn
    rw [get?_named other, own] at stored
    exact stored
  rcases Pen.mem_redraw forested.shown inside with ⟨other, n, drawn⟩ | ⟨box, n, drawn⟩
  · obtain ⟨box, -⟩ | ⟨node, none⟩ := isState.children
    · exact absurd box other
    · refine ⟨_, found drawn (drawn_id n e), drawn_id n e, node.symm ▸ drawn_kind n e, ?_, ?_,
        drawn_label word n⟩
      · rw [isState.mark]
        exact get?_pseudo_drawn n e
      · rw [none]
        exact get?_children_drawn n e
  · obtain ⟨-, ids, listed⟩ | ⟨node, -⟩ := isState.children
    · have children : Outline.childKeys (named g) e = ids := by
        rw [settled.planted_named.childKeys_eq there, Element.listed, listed]
        exact Json.strings_ofStrings ids
      refine ⟨_, found drawn (drawn_id n e), drawn_id n e, box.symm ▸ drawn_kind n e, ?_, ?_,
        drawn_label word n⟩
      · rw [isState.mark, Pen.group, Element.setProperty, Table.get?_insert, if_neg (by decide)]
        exact get?_pseudo_drawn n e
      · rw [Pen.children_group, listed, children]
    · rw [node] at box
      cases box

end

/-- What is redrawn of a named state is the same state. -/
theorem Redraws.sameState {e e' : Element} (redraws : Redraws e e') (word : IsWord e.id) : SameState e e' where
  id := redraws.id
  kind := redraws.kind
  mark := redraws.mark
  children := redraws.children
  label some noEntity := by
    rw [redraws.label, getD_shownLabel? word (some.resolve_right (ne_terminal word)),
      Text.requoted_eq_oneLine noEntity]

theorem Redrawn.element?_terminal (redrawn : Redrawn later g f h)
    (touched : g.connections.values.any fun c => c.touches terminal) :
    h.element? terminal = some (Draft.newState later terminal f.ids.length) := by
  rw [Graph.element?, Table.get?_eq_some_iff, redrawn.entries, if_pos touched]
  exact List.mem_append_right _ (List.mem_singleton_self _)

/-- The terminal state is the same wherever it comes from. -/
theorem IsState.sameState_terminal {e : Element} (isState : IsState e) (own : e.id = terminal)
    (now : Instant) (n : Nat) : SameState e (Draft.newState now terminal n) := by
  obtain ⟨node, label, mark⟩ := isState.plain own
  have children : e.properties.get? Element.childrenKey = none := by
    rcases isState.children with ⟨box, -⟩ | ⟨-, none⟩
    · rw [node] at box
      cases box
    · exact none
  refine ⟨(Draft.newState_id ..).trans own.symm, node.symm, ?_, ?_, fun _ _ => ?_⟩
  · rw [mark, (Draft.get?_newState terminal).1]
  · rw [children, (Draft.get?_newState terminal).2]
  · rw [label]
    rfl

/-- A diagram that was read is redrawn with the same states and transitions. -/
theorem sameStates_redrawn {d : Draft} (sound : d.Sound) (forested : IsForested d.graph f)
    (redrawn : Redrawn later d.graph f h) : SameStates d.graph h := by
  have touches := sound.touches_iff
  have there (id : String) : h.hasElement id ↔ d.graph.hasElement id := by
    rw [Graph.hasElement_iff, Table.keys, redrawn.entries, List.map_append, Pen.keys_redraw,
      List.mem_append, forested.mem_ids_iff]
    by_cases own : id = terminal
    · subst own
      rw [← touches]
      split <;> simp [*]
    · split <;> simp [own]
  refine ⟨?_, fun e known => ?_, redrawn.transitions⟩
  · apply (List.perm_ext_iff_of_nodup h.elements.nodup d.graph.elements.nodup).2
    intro id
    exact Graph.hasElement_iff.symm.trans ((there id).trans Graph.hasElement_iff)
  · by_cases own : e.id = terminal
    · rw [own]
      have isState := sound.settled.states e known
      have has : d.graph.hasElement terminal := by
        have found := Outline.get?_id_of_mem sound.settled.planted.keyed known
        simp [Graph.hasElement, Table.contains, ← own, found]
      exact ⟨_, redrawn.element?_terminal (touches.2 has), isState.sameState_terminal own later _⟩
    · have among := sound.settled.mem_values_named known own
      obtain ⟨e', found, redraws⟩ := redraws_named redrawn forested among
      exact ⟨e', found, redraws.sameState (sound.settled.word among)⟩

/-! ### Formatting -/

/-- The lines that are printed of a diagram. -/
def sourceLines (g : Graph) : List String :=
  (Outline.ofElements g.elements fun e => e.id = terminal).map (itemLine .usual) ++
    g.connections.values.map fun c => Layout.usual.indented 1 (transitionText c)

theorem sourceLines_eq (settled : Draft.Settled groups g)
    (outline : Outline.ofElements (named g) (fun _ => false) = f.items 1) :
    sourceLines g = (f.items 1).map (itemLine .usual) ++
      g.connections.values.map fun c => Layout.usual.indented 1 (transitionText c) := by
  rw [sourceLines, settled.ofElements_eq, outline]

/-- A redrawn diagram is printed as it was. -/
theorem sourceLines_redrawn (redrawn : Redrawn later g f h) (forested : IsForested g f)
    (settled : Draft.Settled groups h) :
    sourceLines h = (f.items 1).map (itemLine .usual) ++
      g.connections.values.map fun c => Layout.usual.indented 1 (transitionText c) := by
  have distinct : ((pen later).redraw 0 f).ids.Nodup := by
    rw [Pen.ids_redraw]
    exact forested.distinct
  have outline := Outline.ofElements_of_shows (Pen.shows_redraw (pen later) 0 f fun e there =>
    (get?_redraw redrawn forested e there).1) distinct (entries_named redrawn forested)
  have depends (a b : Connection) (same : a.drawn = b.drawn) :
      Layout.usual.indented 1 (transitionText a) = Layout.usual.indented 1 (transitionText b) := by
    simp only [Connection.drawn, Prod.mk.injEq] at same
    obtain ⟨source, target, -, label⟩ := same
    unfold transitionText Connection.hasLabel
    rw [source, target, label]
  have transitions : (h.connections.values.map fun c => Layout.usual.indented 1 (transitionText c)) =
      (g.connections.values.map flat).map fun c => Layout.usual.indented 1 (transitionText c) :=
    map_eq_of_view depends (by rw [redrawn.transitions, List.map_map]; rfl)
  have alike : ∀ c : Connection, transitionText (flat c) = transitionText c := by
    intro c
    simp [transitionText, flat, Connection.hasLabel]
  rw [sourceLines_eq settled outline, map_itemLine_redraw .usual forested.words, transitions,
    List.map_map]
  simp only [Function.comp_def, alike]

/-- Every printed line is a statement, and without its indentation it is a line of the body. -/
theorem lines_of_sourceLines {d : Draft} (sound : d.Sound) (forested : IsForested d.graph f)
    (outline : Outline.ofElements (named d.graph) (fun _ => false) = f.items 1) :
    (∀ line ∈ sourceLines d.graph, Source.IsStatement line.toList) ∧
      (sourceLines d.graph).map Text.trimmed = bodyTexts f d.graph := by
  have items := Source.indented_lines .usual (itemLine_eq .usual) fun item there =>
    (said_items forested.words 1 item there).toIsLine
  have transitions := Source.indented_lines .usual (fun c => ⟨1, rfl⟩) fun c there =>
    (said_transitions sound c there).toIsLine
  rw [sourceLines_eq sound.settled outline]
  constructor
  · rw [List.forall_mem_append]
    exact ⟨items.1, transitions.1⟩
  · rw [List.map_append, items.2, transitions.2, bodyTexts]

theorem isHeader : Source.IsHeader "stateDiagram-v2" :=
  ⟨⟨by decide, by decide, by decide⟩, by decide, by decide⟩

theorem dialectOf_header : (Registry.full).dialectOf "stateDiagram-v2" = .ok .states := rfl

/-- A state diagram that is read is the graph of a sound draft whose forest is redrawn from its source. -/
theorem parse_print_redrawn {now : Instant} (later : Instant) {text : String} {d : Diagram}
    (parsed : parse now text = .ok d) (states : d.dialect = .states) :
    ∃ (draft : Draft) (f : Forest) (d' : Diagram), draft.graph = d.toGraph ∧ draft.Sound ∧ IsForested d.toGraph f ∧
      parse later (DiagramText.print d) = .ok d' ∧ d'.dialect = .states ∧ Redrawn later d.toGraph f d'.toGraph ∧
      DiagramText.print d' = DiagramText.print d := by
  obtain ⟨lines, graph⟩ := Registry.toGraph_of_parse parsed
  rw [states] at graph
  let draft := lines.foldl (Draft.readLine now) .empty
  have same : d.toGraph = draft.graph := graph
  have sound : draft.Sound := Draft.sound_foldl_readLine Draft.sound_empty lines
  obtain ⟨f, outline, shown, all⟩ := Outline.exists_shown sound.settled.planted_named.nested
  have forested : IsForested draft.graph f := ⟨sound.settled.closed, shown, all⟩
  obtain ⟨statements, body⟩ := lines_of_sourceLines sound forested outline
  have redrawn := redrawn_read later sound forested
  have resettled : Draft.Sound ((bodyTexts f draft.graph).foldl (Draft.readLine later) .empty) :=
    Draft.sound_foldl_readLine Draft.sound_empty _
  have again : sourceLines (read later ((sourceLines d.toGraph).map Text.trimmed)) =
      sourceLines d.toGraph := by
    rw [same, body, sourceLines_redrawn redrawn forested resettled.settled,
      sourceLines_eq sound.settled outline]
  have printed (g : Graph) (m : Metadata) : Dialect.states.print .usual g m =
      Layout.usual.source "stateDiagram-v2" m (sourceLines g) := rfl
  obtain ⟨d', reparsed, dialect, regraph, reprinted⟩ := parse_print_of_lines later states isHeader
    dialectOf_header printed (same ▸ statements) again
  refine ⟨draft, f, d', same.symm, sound, same ▸ forested, reparsed, dialect, ?_, reprinted⟩
  rw [regraph, same, body]
  exact redrawn

/-- A state diagram that is read, printed and read again has the same states, nested in the same way,
and the same transitions, and is printed as before. -/
theorem parse_print_same_states {now : Instant} (later : Instant) {text : String} {d : Diagram}
    (parsed : parse now text = .ok d) (states : d.dialect = .states) :
    ∃ d', parse later (DiagramText.print d) = .ok d' ∧ d'.dialect = .states ∧
      SameStates d.toGraph d'.toGraph ∧ DiagramText.print d' = DiagramText.print d := by
  obtain ⟨draft, f, d', graph, sound, forested, reparsed, dialect, redrawn, reprinted⟩ :=
    parse_print_redrawn later parsed states
  rw [← graph] at forested redrawn
  exact ⟨d', reparsed, dialect, graph ▸ sameStates_redrawn sound forested redrawn, reprinted⟩

/-- A composite that is opened twice, with a line break in its label and a stray brace in between. -/
def sampleText : String :=
  "stateDiagram-v2\n[*] --> a\nstate \"A\rB\" as b \x7b\nc --> a : go\n\x7d\n\x7d\nstate b \x7b\n" ++
    "state d <<choice>>\nstate c \x7b"

theorem parse_print_same_states_sample : ∃ d, parse .epoch sampleText = .ok d ∧ d.dialect = .states ∧
    ∃ d', parse .epoch (DiagramText.print d) = .ok d' ∧ d'.dialect = .states ∧
      SameStates d.toGraph d'.toGraph ∧ DiagramText.print d' = DiagramText.print d := by
  have taken : Source.ofText? sampleText = some ⟨"stateDiagram-v2", ["[*] --> a",
      "state \"A\rB\" as b \x7b", "c --> a : go", "\x7d", "\x7d", "state b \x7b",
      "state d <<choice>>", "state c \x7b"], none⟩ := by decide
  obtain ⟨d, parsed, states⟩ : ∃ d, parse .epoch sampleText = .ok d ∧ d.dialect = .states :=
    ⟨_, Registry.parse_eq_ok_iff.2 ⟨_, .states, taken, dialectOf_header, by decide, rfl⟩, rfl⟩
  exact ⟨d, parsed, states, parse_print_same_states .epoch parsed states⟩

end DiagramText.States
