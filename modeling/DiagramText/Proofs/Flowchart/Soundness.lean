import DiagramText.Proofs.Flowchart.Drawing
import DiagramText.Proofs.Outline.Planting
import DiagramText.Proofs.Reader.Results

/-! What is known of a flowchart that is read, whatever its lines say. Every id is a word, also those
that are made of free text; subgraphs are planted one in the other; styles are as they can be
declared, and connections are of a known kind. One statement preserves all of it, and so does a run. -/
namespace DiagramText.Flowchart

open Outline (Planted)
open Reader (Leaves Yields)
open Text (IsWord)

/-! ### Statements -/

/-- What a statement that was read can name. -/
def Statement.IsSound : Statement → Prop
  | .chain head links => IsWord head.id ∧ ∀ l ∈ links, IsWord l.target.id ∧ ∀ s ∈ l.label, Text.trimmed s = s
  | .node ref => IsWord ref.id
  | .subgraph id _ => id ≠ "" → IsWord id
  | .style _ declarations => ∀ d ∈ declarations, IsDeclared d.1 d.2
  | .close | .direction _ => True

theorem yields_nodeRef : Yields nodeRef fun ref => IsWord ref.id :=
  Reader.yields_identifier.bind fun _ word => (Reader.yields_any _).bind fun _ _ =>
    (Reader.yields_any _).bind fun _ _ => Reader.yields_pure word

theorem yields_edgeLabel : Yields edgeLabel fun s => Text.trimmed s = s :=
  (Reader.yields_any _).bind fun _ _ => (Reader.yields_any _).bind fun _ _ =>
    (Reader.yields_any _).bind fun _ _ => Reader.yields_pure (Text.trimmed_trimmed _)

theorem yields_link : Yields link fun l => IsWord l.target.id ∧ ∀ s ∈ l.label, Text.trimmed s = s := by
  have label : Yields (edgeLabel <* Reader.inlineBlanks) fun s => Text.trimmed s = s := by
    rw [seqLeft_eq_bind]
    exact yields_edgeLabel.bind fun _ tight => (Reader.yields_any _).bind fun _ _ => Reader.yields_pure tight
  exact (Reader.yields_any _).bind fun _ _ => (Reader.yields_any _).bind fun _ _ =>
    (Reader.yields_any _).bind fun _ _ => label.optional.bind fun _ tight =>
      yields_nodeRef.bind fun _ word =>
        Reader.yields_pure ⟨word, fun s h => (Reader.forall_mem_bind_nonEmpty tight s h).2⟩

theorem yields_chain : Yields chain Statement.IsSound :=
  yields_nodeRef.bind fun _ word => yields_link.many1.bind fun _ links =>
    (Reader.yields_any _).bind fun _ _ => Reader.yields_pure ⟨word, links⟩

/-- Free text names a subgraph too, with underscores for what no word has. -/
theorem isWord_groupHeader {cs : List Char} (named : (groupHeader cs).1 ≠ "") : IsWord (groupHeader cs).1 := by
  unfold groupHeader at named ⊢
  split
  · next none =>
    rw [if_pos none] at named
    exact absurd rfl named
  · next some =>
    rw [if_neg some] at named
    split
    · next header found =>
      have yields : Yields titledGroup fun header => IsWord header.1 :=
        Reader.yields_identifier.bind fun _ word => (Reader.yields_any _).bind fun _ _ =>
          (Reader.yields_any _).bind fun _ _ => (Reader.yields_any _).bind fun _ _ =>
            (Reader.yields_any _).bind fun _ _ => Reader.yields_pure word
      exact yields.whole? found
    · next noTitle =>
      split
      · next id found => exact Reader.yields_identifier.whole? found
      · next noId =>
        rw [noTitle, noId] at named
        constructor
        · exact fun none => named (String.toList_eq_nil_iff.1 none)
        · rw [String.toList_ofList, List.forall_mem_map]
          intro c _
          split
          · next letter => rw [Text.isWordChar, letter, Bool.true_or]
          · decide

theorem yields_subgraph : Yields subgraph Statement.IsSound := by
  refine (Reader.yields_any _).bind fun _ _ => (Reader.yields_any _).bind fun header _ =>
    (Reader.yields_any _).bind fun _ _ => Reader.yields_pure ?_
  exact isWord_groupHeader

/-- The declarations of a style line are read from the end of the line. -/
theorem yieldsWithout_style {c : Char} {Q : Statement → Prop}
    (each : ∀ ids cs, c ∉ cs → Q (.style ids (declarations cs))) : Reader.YieldsWithout c style Q :=
  ((Reader.leaves_token "style").without c).bind fun _ _ =>
    (Reader.leaves_inlineBlanks1.without c).bind fun _ _ =>
      ((Reader.leaves_identifier.sepBy1 (Reader.leaves_token ",")).without c).bind fun ids _ =>
        (Reader.leaves_inlineBlanks1.without c).bind fun _ _ =>
          Reader.yieldsWithout_rest.bind fun cs free => Reader.yieldsWithout_pure (each ids cs free)

theorem isSound_of_ofText? {cs : List Char} {s : Statement} (unbroken : '\n' ∉ cs)
    (read : Statement.ofText? cs = some s) : s.IsSound := by
  have free : '\n' ∉ Text.trim cs := fun h => unbroken (Text.mem_of_mem_trim h)
  obtain ⟨r, among, found⟩ := Reader.firstOf_eq_some (Reader.whole?_eq_some read)
  simp only [List.mem_cons, List.not_mem_nil, or_false] at among
  rcases among with rfl | rfl | rfl | rfl | rfl | rfl
  · exact yields_subgraph _ _ _ found
  · have close : Yields (Reader.token "end" *> Reader.atEnd *> pure Statement.close) Statement.IsSound :=
      Reader.Yields.seqRight _ (Reader.yields_pure trivial)
    exact close _ _ _ found
  · have style : Reader.YieldsWithout '\n' style Statement.IsSound :=
      yieldsWithout_style fun _ _ unbroken => isDeclared_of_mem_declarations unbroken rfl
    exact (style _ _ _ free found).1
  · have direction : Yields directionLine Statement.IsSound :=
      (Reader.yields_any _).bind fun _ _ => (Reader.yields_any _).bind fun _ _ =>
        (Reader.yields_any _).bind fun _ _ => (Reader.yields_any _).bind fun _ _ =>
          Reader.yields_pure trivial
    exact direction _ _ _ found
  · exact yields_chain _ _ _ found
  · have node : Yields (do let ref ← nodeRef; Reader.atEnd; pure (Statement.node ref)) Statement.IsSound :=
      yields_nodeRef.bind fun _ word => (Reader.yields_any _).bind fun _ _ => Reader.yields_pure word
    exact node _ _ _ found

theorem isSound_statementsOf {lines : List String} (unbroken : ∀ line ∈ lines, '\n' ∉ line.toList) :
    ∀ s ∈ statementsOf lines, s.IsSound := by
  intro s said
  obtain ⟨text, among, read⟩ := List.mem_filterMap.1 said
  obtain ⟨line, there, inside⟩ := List.mem_flatMap.1 among
  obtain ⟨piece, found, rfl⟩ := List.mem_map.1 (List.mem_filter.1 inside).1
  refine isSound_of_ofText? (fun broken => ?_) read
  exact unbroken line there (Text.mem_of_mem_unquotedPieces found (Text.mem_of_mem_trim broken))

/-! ### Elements -/

/-- A style of texts of which something is known, with their keys. -/
def HasValues (P : String → String → Prop) (style : Table Json) : Prop :=
  ∀ p ∈ style.entries, ∃ value, p.2 = .str value ∧ P p.1 value

instance {P : String → String → Prop} [∀ key value, Decidable (P key value)] (style : Table Json) :
    Decidable (HasValues P style) :=
  decidable_of_iff (∀ p ∈ style.entries, ∃ value ∈ p.2.string?, P p.1 value) <| by
    have text (j : Json) (value : String) : value ∈ j.string? ↔ j = .str value := by
      cases j <;> simp [Json.string?, eq_comm]
    simp only [HasValues, text]

namespace Draft

variable {now : Instant} {d : Draft} {id : String} {e : Element}

theorem listed_describe (ref : NodeRef) (e : Element) :
    (describe ref e).listed Element.childrenKey = e.listed Element.childrenKey := by
  unfold describe
  cases ref.body <;> cases ref.styleClass <;>
    simp [Element.listed, Element.setProperty, Table.get?_insert, Element.childrenKey, Element.shapeKey]

theorem style_describe (ref : NodeRef) (e : Element) : (describe ref e).style = e.style := by
  unfold describe
  cases ref.body <;> cases ref.styleClass <;> rfl

theorem properties_setStyles (declarations : List (String × String)) (e : Element) :
    (setStyles declarations e).properties = e.properties := by
  unfold setStyles
  induction declarations generalizing e with
  | nil => rfl
  | cons d ds ih => exact ih _

theorem hasValues_setStyles {P : String → String → Prop} {declarations : List (String × String)}
    (set : ∀ d ∈ declarations, P d.1 d.2) (before : HasValues P e.style) :
    HasValues P (setStyles declarations e).style := by
  unfold setStyles
  induction declarations generalizing e with
  | nil => exact before
  | cons d ds ih =>
    rw [List.forall_mem_cons] at set
    refine ih set.2 fun p there => ?_
    rcases Table.mem_put there with rfl | old
    · exact ⟨d.2, rfl, set.1⟩
    · exact before p old

theorem isStyle_setStyles {declarations : List (String × String)}
    (declared : ∀ d ∈ declarations, IsDeclared d.1 d.2) (isStyle : IsStyle e.style) :
    IsStyle (setStyles declarations e).style := hasValues_setStyles declared isStyle

theorem listed_newNode (n : Nat) : (newNode now id n).listed Element.childrenKey = [] := rfl

theorem listed_newGroup (label : String) : (newGroup now id label).listed Element.childrenKey = [] := by
  rw [newGroup, Element.listed, Element.setProperty, Table.get?_insert, if_pos rfl]
  rfl

/-! ### The whole draft -/

/-- What is known of an element that was read. -/
structure IsRead (e : Element) : Prop where
  word : IsWord e.id
  style : IsStyle e.style

structure Sound (d : Draft) : Prop where
  planted : Planted d.graph.elements.entries
  elements : ∀ e ∈ d.graph.elements.values, IsRead e
  groups : ∀ group ∈ d.groups, group ∈ d.graph.elements.keys
  connections : ∀ c ∈ d.graph.connections.values,
    (Arrow.ofKey? c.kind).isSome ∧ Text.trimmed c.label = c.label

theorem sound_empty : Sound empty where
  planted := Planted.nil
  elements := by simp [empty, Graph.empty, Table.values]
  groups := by simp [empty]
  connections := by simp [empty, Graph.empty, Table.values]

/-- A change of elements that keeps their ids and lists, and what is known of them. -/
theorem Sound.modify (sound : Sound d) {f : Element → Element} (ids : ∀ e, (f e).id = e.id)
    (lists : ∀ e, (f e).listed Element.childrenKey = e.listed Element.childrenKey)
    (styles : ∀ e, IsStyle e.style → IsStyle (f e).style) :
    Sound { d with graph := d.graph.modifyElement id f } where
  planted := sound.planted.modify id ids fun e _ => lists e
  elements x there := by
    obtain ⟨p, among, same⟩ := Table.mem_values_modify there
    have before := sound.elements p.2 (Table.mem_values_iff.2 ⟨p, among, rfl⟩)
    rcases same with rfl | ⟨-, rfl⟩
    · exact before
    · exact ⟨ids p.2 ▸ before.word, styles p.2 before.style⟩
  groups group isOpen := by
    rw [Graph.keys_modifyElement]
    exact sound.groups group isOpen
  connections := sound.connections

/-- A new element that lists nothing, listed itself in the innermost open group. -/
theorem Sound.place (sound : Sound d) (fresh : id ∉ d.graph.elements.keys) (word : IsWord id) (own : e.id = id)
    (empty : e.listed Element.childrenKey = []) (style : IsStyle e.style) : Sound (d.place id e) := by
  have isOpen : d.canvas.IsOpen :=
    fun group top => sound.groups group (List.mem_of_mem_head? top)
  have canvas := canvas_place isOpen fresh e
  have entries : (d.place id e).graph.elements.entries =
      Outline.adopt d.groups [id] d.graph.elements.entries ++ [(id, e)] :=
    congrArg Outline.Canvas.entries canvas
  have groups : (d.place id e).groups = d.groups := congrArg Outline.Canvas.groups canvas
  have connections : (d.place id e).graph.connections = d.graph.connections :=
    congrArg Outline.Canvas.connections canvas
  refine ⟨?_, fun x there => ?_, fun group isOpen => ?_, ?_⟩
  · rw [entries]
    exact sound.planted.add fresh own empty
  · obtain ⟨p, among, rfl⟩ := Table.mem_values_iff.1 there
    rw [entries, List.mem_append, List.mem_singleton] at among
    rcases among with adopted | rfl
    · obtain ⟨q, old, -, same⟩ := Outline.exists_of_mem_adopt adopted
      have before := sound.elements q.2 (Table.mem_values_iff.2 ⟨q, old, rfl⟩)
      rw [same]
      split
      · exact ⟨Graph.append_id q.2 .. ▸ before.word, Element.append_style (e := q.2) ▸ before.style⟩
      · exact before
    · exact ⟨own ▸ word, style⟩
  · rw [groups] at isOpen
    rw [keys_place fresh]
    exact List.mem_append_left _ (sound.groups group isOpen)
  · rw [connections]
    exact sound.connections

theorem Sound.declare (sound : Sound d) {ref : NodeRef} (word : IsWord ref.id) :
    Sound (d.declare now ref) := by
  by_cases there : d.graph.hasElement ref.id
  · rw [declare_of_hasElement there]
    exact sound.modify (describe_id ref) (listed_describe ref) fun e isStyle =>
      (style_describe ref e).symm ▸ isStyle
  · rw [Graph.hasElement_iff] at there
    rw [declare_of_fresh there]
    refine sound.place there word (describe_id ..) ?_ ?_
    · rw [listed_describe, listed_newNode]
    · rw [style_describe]
      exact isStyle_empty

theorem Sound.connect (sound : Sound d) (source target : String) (a : Arrow) {label : String}
    (tight : Text.trimmed label = label) :
    Sound { d with graph := d.graph.connect now source target a.key label } where
  planted := sound.planted
  elements := sound.elements
  groups := sound.groups
  connections c there := by
    have known : (Arrow.ofKey? a.key).isSome := by cases a <;> decide
    rcases Table.mem_values_insert there with rfl | old
    · exact ⟨known, tight⟩
    · exact sound.connections c old

theorem Sound.addLinks (sound : Sound d) (source : String) {links : List Link}
    (read : ∀ l ∈ links, IsWord l.target.id ∧ ∀ s ∈ l.label, Text.trimmed s = s) :
    Sound (addLinks now d source links) := by
  induction links generalizing d source with
  | nil => exact sound
  | cons l links ih =>
    rw [List.forall_mem_cons] at read
    have tight : Text.trimmed (l.label.getD "") = l.label.getD "" := by
      cases given : l.label with
      | none => rfl
      | some s => exact read.1.2 s given
    exact ih ((sound.declare read.1.1).connect source l.target.id l.arrow tight) l.target.id read.2

/-- The group that is opened is there, whether it is new or not. -/
theorem Sound.openGroup (sound : Sound d) {label : String} (word : id ≠ "" → IsWord id) :
    Sound (d.openGroup now id label) := by
  have named : IsWord (d.groupName id) := by
    unfold groupName
    split
    · exact Text.IsWord.append_toString (by decide) _
    · next some => exact word some
  rw [openGroup_eq]
  by_cases there : d.graph.hasElement (d.groupName id)
  · rw [if_pos there]
    rw [Graph.hasElement_iff] at there
    exact ⟨sound.planted, sound.elements, List.forall_mem_cons.2 ⟨there, sound.groups⟩, sound.connections⟩
  · rw [if_neg there]
    rw [Graph.hasElement_iff] at there
    have placed : Sound (d.place (d.groupName id) (newGroup now (d.groupName id) label)) :=
      sound.place there named rfl (listed_newGroup label) isStyle_empty
    refine ⟨placed.planted, placed.elements, fun group isOpen => ?_, placed.connections⟩
    rw [keys_place there, List.mem_append, List.mem_singleton]
    exact (List.mem_cons.1 isOpen).symm.imp_left (sound.groups group)

/-- Style lines change styles, and nothing but what was declared. -/
theorem Sound.restyle (sound : Sound d) {declarations : List (String × String)}
    (declared : ∀ d ∈ declarations, IsDeclared d.1 d.2) (ids : List String) : Sound
      { d with graph := ids.foldl (fun g id => g.modifyElement id (setStyles declarations)) d.graph } := by
  induction ids generalizing d with
  | nil => exact sound
  | cons id ids ih =>
    refine ih (sound.modify (setStyles_id declarations) (fun e => ?_) fun e => isStyle_setStyles declared)
    rw [Element.listed, properties_setStyles]
    rfl

theorem sound_apply (sound : Sound d) {s : Statement} (said : s.IsSound) : Sound (d.apply now s) := by
  cases s with
  | node ref => exact sound.declare said
  | chain head links => exact (sound.declare said.1).addLinks head.id said.2
  | subgraph id label => exact sound.openGroup said
  | close =>
    exact ⟨sound.planted, sound.elements, fun group isOpen => sound.groups group
      (List.mem_of_mem_tail isOpen), sound.connections⟩
  | style ids declarations => exact sound.restyle said ids
  | direction => exact sound

theorem Sound.foldl_apply (sound : Sound d) {statements : List Statement} (said : ∀ s ∈ statements, s.IsSound) :
    Sound (statements.foldl (apply now) d) := by
  induction statements generalizing d with
  | nil => exact sound
  | cons s statements ih =>
    rw [List.forall_mem_cons] at said
    exact ih (sound_apply sound said.1) said.2

/-- Whatever its lines say, what is read is sound. -/
theorem sound_foldl_readLine (sound : Sound d) {lines : List String}
    (unbroken : ∀ line ∈ lines, '\n' ∉ line.toList) : Sound (lines.foldl (readLine now) d) := by
  rw [foldl_readLine]
  exact sound.foldl_apply (isSound_statementsOf unbroken)

end Draft

end DiagramText.Flowchart
