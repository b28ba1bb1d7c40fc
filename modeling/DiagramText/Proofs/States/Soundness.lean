import DiagramText.Proofs.Outline.Planting
import DiagramText.Proofs.Reader.Results
import DiagramText.Proofs.States.Line
import DiagramText.Proofs.States.Reading

/-! What is known of a state diagram that is read, whatever its lines say. Its states are named by
words, the terminal one apart; a composite lists its children, and what is not a composite lists
none; open composites are there; and the terminal state has a transition. One statement preserves
all of it, and so does a run. -/
namespace DiagramText.States

open Outline (Planted adopt)
open Text (IsWord)

/-! ### Statements -/

/-- What a statement that was read can name. -/
def Statement.IsSound : Statement → Prop
  | .declare id _ _ _ => IsWord id
  | .close => True
  | .transition source target label => IsRef source ∧ IsRef target ∧ ∀ s ∈ label, Text.trimmed s = s
  | .describe id _ => IsWord id

theorem yields_stateRef : Reader.Yields stateRef IsRef :=
  ((Reader.yields_pure (.inr rfl)).seqRight _).orElse (Reader.yields_identifier.mono fun _ => .inl)

theorem yields_declare : Reader.Yields declare Statement.IsSound := by
  have labelledWord : Reader.Yields labelled fun p => IsWord p.1 :=
    (Reader.yields_any _).bind fun _ _ => (Reader.yields_any _).bind fun _ _ =>
      (Reader.yields_any _).bind fun _ _ => (Reader.yields_any _).bind fun _ _ =>
        Reader.yields_identifier.bind fun _ word => Reader.yields_pure word
  have name : Reader.Yields (labelled <|> (fun id => (id, none)) <$> Reader.identifier)
      fun p => IsWord p.1 := labelledWord.orElse (Reader.yields_identifier.map fun _ word => word)
  exact (Reader.yields_any _).bind fun _ _ => (Reader.yields_any _).bind fun _ _ =>
    name.bind fun _ word => (Reader.yields_any _).bind fun _ _ => (Reader.yields_any _).bind fun _ _ =>
      (Reader.yields_any _).bind fun _ _ => Reader.yields_pure word

theorem yields_transition : Reader.Yields transition Statement.IsSound :=
  yields_stateRef.bind fun _ source => (Reader.yields_any _).bind fun _ _ =>
    (Reader.yields_any _).bind fun _ _ => (Reader.yields_any _).bind fun _ _ =>
      yields_stateRef.bind fun _ target => Reader.yields_colonLabel.bind fun _ label =>
        (Reader.yields_any _).bind fun _ _ =>
          Reader.yields_pure ⟨source, target, fun s h => (label s h).2⟩

theorem yields_statement : Reader.Yields statement Statement.IsSound := by
  apply Reader.yields_firstOf
  simp only [List.forall_mem_cons]
  refine ⟨yields_declare, ?_, yields_transition, ?_, by simp⟩
  · exact Reader.Yields.seqRight _ (Reader.yields_pure trivial)
  · exact Reader.yields_identifier.bind fun _ word => (Reader.yields_any _).bind fun _ _ =>
      (Reader.yields_any _).bind fun _ _ => (Reader.yields_any _).bind fun _ _ => Reader.yields_pure word

theorem isSound_of_ofText? {cs : List Char} {s : Statement} (read : Statement.ofText? cs = some s) :
    s.IsSound := yields_statement.whole? read

/-! ### States -/

/-- A state as it is made: the terminal one is plain, and just the composites list children. -/
structure IsState (e : Element) : Prop where
  ref : IsRef e.id
  plain : e.id = terminal → e.kind = .node ∧ e.label = "" ∧ e.properties.get? pseudoKey = none
  mark : e.properties.get? pseudoKey = (pseudo? e).map fun p => .str p.name
  children : e.kind = .container ∧ (∃ ids, e.properties.get? Element.childrenKey = some (.ofStrings ids)) ∨
    e.kind = .node ∧ e.properties.get? Element.childrenKey = none

namespace Draft

variable {now : Instant} {e : Element} {id : String} {n : Nat}

theorem isState_newState (isRef : IsRef id) : IsState (newState now id n) where
  ref := (newState_id now id n).symm ▸ isRef
  plain own := by
    rw [newState_id] at own
    subst own
    exact ⟨rfl, rfl, (get?_newState terminal).1⟩
  mark := by
    rw [pseudo?, Element.property?, (get?_newState id).1]
    rfl
  children := .inr ⟨rfl, (get?_newState id).2⟩

theorem isState_declared (isState : IsState e) (word : IsWord e.id) (label : Option String)
    (pseudo : Option Pseudo) (opensBlock : Bool) : IsState (declared label pseudo opensBlock e) where
  ref := (declared_id label pseudo opensBlock e).symm ▸ isState.ref
  plain own := absurd ((declared_id label pseudo opensBlock e).symm.trans own) (ne_terminal word)
  mark := by
    have found := @get?_pseudo_declared label pseudo opensBlock e
    rw [isState.mark] at found
    have whole : (pseudo.map fun p => .str p.name).or ((pseudo? e).map fun p => .str p.name) =
        (pseudo.or (pseudo? e)).map fun p => Json.str p.name := by cases pseudo <;> rfl
    rw [found, whole, pseudo?_of_get? (found.trans whole)]
  children := by
    rw [declared_kind, get?_children_declared]
    cases opensBlock with
    | false => simpa using isState.children
    | true =>
      rcases isState.children with ⟨-, ids, found⟩ | ⟨-, none⟩
      · exact .inl ⟨rfl, ids, by simp [found]⟩
      · exact .inl ⟨rfl, [], by simp [none, Json.ofStrings]⟩

theorem isState_relabel (isState : IsState e) (word : IsWord e.id) (description : String) :
    IsState (relabel description e) where
  ref := isState.ref
  plain own := absurd own (ne_terminal word)
  mark := isState.mark
  children := isState.children

theorem isState_append (isState : IsState e) (box : e.kind = .container) (id : String) :
    IsState (e.append Element.childrenKey (.str id)) := by
  rcases isState.children with ⟨-, ids, found⟩ | ⟨node, -⟩
  · have marks : (e.setProperty Element.childrenKey (.ofStrings (ids ++ [id]))).properties.get? pseudoKey =
        e.properties.get? pseudoKey := by
      rw [Element.setProperty, Table.get?_insert, if_neg (by decide)]
    rw [Element.append_ofStrings found]
    refine ⟨isState.ref, fun own => ?_, ?_, .inl ⟨box, ids ++ [id], ?_⟩⟩
    · exact absurd ((isState.plain own).1.symm.trans box) (by decide)
    · rw [marks, isState.mark, pseudo?_of_get? (marks.trans isState.mark)]
    · rw [Element.setProperty, Table.get?_insert, if_pos rfl]
  · rw [node] at box
    cases box

/-! ### The elements of a draft -/

/-- What is known of the states of a draft, with some composites open. -/
structure Settled (groups : List String) (g : Graph) : Prop where
  planted : Planted g.elements.entries
  states : ∀ e ∈ g.elements.values, IsState e
  unlisted : ∀ e ∈ g.elements.values, terminal ∉ e.listed Element.childrenKey
  groups : ∀ id ∈ groups, ∃ e, g.element? id = some e ∧ e.kind = .container

variable {g h : Graph} {groups : List String}

/-- Transitions make no difference. -/
theorem Settled.of_elements (settled : Settled groups g) (same : h.elements = g.elements) :
    Settled groups h where
  planted := same ▸ settled.planted
  states := same ▸ settled.states
  unlisted := same ▸ settled.unlisted
  groups id isOpen := by
    rw [Graph.element?, same]
    exact settled.groups id isOpen

/-- A change of one state that keeps what is known of it. -/
theorem Settled.modify (settled : Settled groups g) {f : Element → Element} (ids : ∀ e, (f e).id = e.id)
    (lists : ∀ e, (f e).listed Element.childrenKey = e.listed Element.childrenKey)
    (boxes : ∀ e, e.kind = .container → (f e).kind = .container)
    (states : ∀ e, IsState e → e.id = id → IsState (f e)) : Settled groups (g.modifyElement id f) := by
  have back : ∀ e ∈ (g.modifyElement id f).elements.values,
      ∃ x ∈ g.elements.values, e = x ∨ (x.id = id ∧ e = f x) := by
    intro e there
    obtain ⟨p, among, same⟩ := Table.mem_values_modify there
    refine ⟨p.2, Table.mem_values_iff.2 ⟨p, among, rfl⟩, same.imp_right fun ⟨own, changed⟩ => ?_⟩
    exact ⟨(settled.planted.keyed p among).symm.trans own, changed⟩
  refine ⟨settled.planted.modify id ids fun e _ => lists e, fun e there => ?_, fun e there => ?_,
    fun group isOpen => ?_⟩
  · obtain ⟨x, hx, rfl | ⟨own, rfl⟩⟩ := back e there
    · exact settled.states e hx
    · exact states x (settled.states x hx) own
  · obtain ⟨x, hx, rfl | ⟨-, rfl⟩⟩ := back e there
    · exact settled.unlisted e hx
    · rw [lists]
      exact settled.unlisted x hx
  · obtain ⟨e, found, box⟩ := settled.groups group isOpen
    rw [Graph.element?, Graph.modifyElement, Table.get?_modify]
    rw [Graph.element?] at found
    split
    · exact ⟨f e, by rw [found]; rfl, boxes e box⟩
    · exact ⟨e, found, box⟩

/-- A new state that lists nothing, listed itself by some of the open composites. -/
theorem Settled.add (settled : Settled groups g) (isRef : IsRef id) (fresh : id ∉ g.elements.keys)
    {listers : List String} (among : listers ⊆ groups) (unlisted : id = terminal → listers = [])
    (entries : h.elements.entries =
      adopt listers [id] g.elements.entries ++ [(id, newState now id n)]) : Settled groups h := by
  -- What was there is as it was, but for the composite that takes in the new state.
  have back : ∀ e ∈ h.elements.values, e = newState now id n ∨ ∃ x ∈ g.elements.values, e = x ∨
      (x.kind = .container ∧ id ≠ terminal ∧ e = x.append Element.childrenKey (.str id)) := by
    intro e there
    obtain ⟨p, hp, rfl⟩ := Table.mem_values_iff.1 there
    rw [entries, List.mem_append, List.mem_singleton] at hp
    rcases hp with adopted | rfl
    · obtain ⟨q, old, -, same⟩ := Outline.exists_of_mem_adopt adopted
      refine .inr ⟨q.2, Table.mem_values_iff.2 ⟨q, old, rfl⟩, ?_⟩
      by_cases top : listers.head? = some q.1
      · obtain ⟨x, found, box⟩ := settled.groups q.1 (among (List.mem_of_mem_head? top))
        obtain rfl := Option.some.inj (found.symm.trans (Table.get?_eq_some_iff.2 old))
        refine .inr ⟨box, fun own => ?_, same.trans (if_pos top)⟩
        rw [unlisted own] at top
        cases top
      · exact .inl (same.trans (if_neg top))
    · exact .inl rfl
  refine ⟨?_, fun e there => ?_, fun e there => ?_, fun group isOpen => ?_⟩
  · rw [entries]
    exact settled.planted.add fresh (newState_id now id n) (listed_newState id)
  · obtain rfl | ⟨x, hx, rfl | ⟨box, -, rfl⟩⟩ := back e there
    · exact isState_newState isRef
    · exact settled.states e hx
    · exact isState_append (settled.states x hx) box id
  · obtain rfl | ⟨x, hx, rfl | ⟨-, named, rfl⟩⟩ := back e there
    · rw [listed_newState]
      exact List.not_mem_nil
    · exact settled.unlisted e hx
    · rw [Element.listed_append, List.mem_append, List.mem_singleton, not_or]
      exact ⟨settled.unlisted x hx, Ne.symm named⟩
  · obtain ⟨e, found, box⟩ := settled.groups group isOpen
    have entry := Table.get?_eq_some_iff.1 found
    have adopted : ∃ p ∈ adopt listers [id] g.elements.entries, p.1 = group ∧ p.2.kind = .container := by
      cases listers with
      | nil => exact ⟨_, entry, rfl, box⟩
      | cons lister _ =>
        refine ⟨_, List.mem_map.2 ⟨_, entry, rfl⟩, rfl, ?_⟩
        dsimp only
        split
        · exact (Element.append_kind ..).trans box
        · exact box
    obtain ⟨p, there, rfl, box⟩ := adopted
    refine ⟨p.2, Table.get?_eq_some_iff.2 ?_, box⟩
    rw [entries]
    exact List.mem_append_left _ there

theorem keys_enlisted (groups : List String) (g : Graph) (id : String) :
    (enlisted groups g id).elements.keys = g.elements.keys := by
  unfold enlisted
  split
  · rfl
  · cases groups with
    | nil => rfl
    | cons group groups => exact Graph.keys_modifyElement ..

theorem connections_enlisted (groups : List String) (g : Graph) (id : String) :
    (enlisted groups g id).connections = g.connections := by
  unfold enlisted
  split
  · rfl
  · cases groups <;> rfl

/-- The composites that list a new state. -/
def listers (groups : List String) (id : String) : List String := if id = terminal then [] else groups

theorem entries_enlisted (fresh : id ∉ g.elements.keys) (groups : List String) :
    (enlisted groups g id).elements.entries = adopt (listers groups id) [id] g.elements.entries := by
  have unknown : ¬ g.hasElement id := by
    rw [Graph.hasElement_iff]
    exact fresh
  unfold enlisted listers
  by_cases own : id = terminal
  · rw [if_pos (.inr own), if_pos own]
    rfl
  · rw [if_neg (not_or.2 ⟨unknown, own⟩), if_neg own]
    cases groups <;> rfl

/-- A new state goes to the end, and into the composites that list it. -/
theorem ensure_of_fresh (fresh : id ∉ g.elements.keys) (groups : List String) :
    ensure now groups g id =
      (enlisted groups g id).withElement id (newState now id g.elements.entries.length) := by
  have still : id ∉ (enlisted groups g id).elements.keys := by
    rw [keys_enlisted]
    exact fresh
  have size : (enlisted groups g id).elements.size = g.elements.entries.length := by
    have same := congrArg List.length (keys_enlisted groups g id)
    simpa [Table.keys, Table.size] using same
  rw [ensure_eq, Graph.ensure_of_fresh still, size]

theorem ensure_of_hasElement (there : g.hasElement id) (groups : List String) :
    ensure now groups g id = g := by
  have unlisted : enlisted groups g id = g := if_pos (.inl there)
  rw [ensure_eq, unlisted, Graph.ensure_of_hasElement there]

theorem Settled.ensure (settled : Settled groups g) (isRef : IsRef id) :
    Settled groups (ensure now groups g id) := by
  by_cases there : g.hasElement id
  · rwa [ensure_of_hasElement there]
  · rw [Graph.hasElement_iff] at there
    have still : id ∉ (enlisted groups g id).elements.keys := by
      rw [keys_enlisted]
      exact there
    have among : listers groups id ⊆ groups := by
      unfold listers
      split
      · exact List.nil_subset _
      · exact List.Subset.refl _
    have entries : (Draft.ensure now groups g id).elements.entries =
        adopt (listers groups id) [id] g.elements.entries ++
          [(id, newState now id g.elements.entries.length)] := by
      rw [ensure_of_fresh there, Graph.entries_withElement still, entries_enlisted there]
    exact settled.add isRef there among (fun own => if_pos own) entries

theorem connections_ensure (groups : List String) (g : Graph) (id : String) :
    (ensure now groups g id).connections = g.connections := by
  rw [ensure_eq, Graph.ensure]
  split <;> exact connections_enlisted ..

theorem hasElement_ensure_iff {other : String} :
    (ensure now groups g id).hasElement other ↔ g.hasElement other ∨ other = id := by
  by_cases there : g.hasElement id
  · rw [ensure_of_hasElement there]
    exact ⟨.inl, fun h => h.elim (fun known => known) fun own => own ▸ there⟩
  · rw [Graph.hasElement_iff] at there
    have still : id ∉ (enlisted groups g id).elements.keys := by
      rw [keys_enlisted]
      exact there
    rw [ensure_of_fresh there, Graph.hasElement_iff, Graph.keys_withElement still, keys_enlisted,
      List.mem_append, List.mem_singleton, Graph.hasElement_iff]

/-! ### The whole draft -/

structure Sound (d : Draft) : Prop where
  settled : Settled d.groups d.graph
  transitions : ∀ c ∈ d.graph.connections.values, c.kind = transitionKind ∧ Text.trimmed c.label = c.label
  touched : d.graph.hasElement terminal → ∃ c ∈ d.graph.connections.values, c.touches terminal
  closed : d.graph.Closed
  numbered : d.graph.Numbered

theorem sound_empty : Sound empty where
  settled := ⟨Planted.nil, by simp [empty, Graph.empty, Table.values],
    by simp [empty, Graph.empty, Table.values], by simp [empty]⟩
  transitions := by simp [empty, Graph.empty, Table.values]
  touched := by simp [empty, Graph.empty, Graph.hasElement_iff, Table.keys]
  closed := Graph.closed_empty
  numbered := Graph.numbered_empty

/-- A statement that names one state changes no transition. -/
theorem Sound.of_named {d e : Draft} (sound : Sound d) (grown : Graph.Growth d.graph e.graph)
    (settled : Settled e.groups e.graph) (connections : e.graph.connections = d.graph.connections)
    (terminals : e.graph.hasElement terminal → d.graph.hasElement terminal) : Sound e where
  settled := settled
  transitions := connections ▸ sound.transitions
  touched there := connections ▸ sound.touched (terminals there)
  closed := grown.closed sound.closed
  numbered := grown.numbered sound.numbered

/-- Among the states that are there after a word was named, the terminal one was there before. -/
theorem hasElement_terminal {d : Draft} {f : Element → Element} (word : IsWord id)
    (there : ((ensure now d.groups d.graph id).modifyElement id f).hasElement terminal) :
    d.graph.hasElement terminal := by
  rw [Graph.hasElement_modifyElement, hasElement_ensure_iff] at there
  exact there.resolve_right (Ne.symm (ne_terminal word))

theorem sound_declare {d : Draft} (sound : Sound d) (word : IsWord id) (label : Option String)
    (pseudo : Option Pseudo) (opensBlock : Bool) :
    Sound (d.apply now (.declare id label pseudo opensBlock)) := by
  have settled : Settled d.groups ((ensure now d.groups d.graph id).modifyElement id
      (declared label pseudo opensBlock)) :=
    (sound.settled.ensure (.inl word)).modify (declared_id label pseudo opensBlock)
      (listed_declared label pseudo opensBlock) (fun e box => by rw [declared_kind, box, ite_self])
      fun e isState own => isState_declared isState (own ▸ word) label pseudo opensBlock
  refine sound.of_named (growth_apply now d _) ⟨settled.planted, settled.states, settled.unlisted,
    fun group isOpen => ?_⟩ (connections_ensure ..) (hasElement_terminal word)
  cases opensBlock with
  | false => exact settled.groups group isOpen
  | true =>
    rcases List.mem_cons.1 isOpen with rfl | outer
    · obtain ⟨e, found⟩ := Option.isSome_iff_exists.1 (hasElement_ensure now d.groups d.graph group)
      refine ⟨declared label pseudo true e, ?_, declared_kind⟩
      rw [apply, Graph.element?, Graph.modifyElement, Table.get?_modify, if_pos rfl, found]
      rfl
    · exact settled.groups group outer

/-- A transition makes its ends, the terminal one too, and then it touches them. -/
theorem sound_transition {d : Draft} (sound : Sound d) {source target : String} {label : Option String}
    (isSource : IsRef source) (isTarget : IsRef target) (tight : ∀ s ∈ label, Text.trimmed s = s) :
    Sound (d.apply now (.transition source target label)) := by
  let g := ensure now d.groups (ensure now d.groups d.graph source) target
  have kept : g.connections = d.graph.connections :=
    (connections_ensure ..).trans (connections_ensure ..)
  have numbered : g.Numbered := by
    unfold Graph.Numbered
    rw [kept]
    exact sound.numbered
  have values : ∃ c : Connection, c.source = source ∧ c.target = target ∧ c.kind = transitionKind ∧
      c.label = label.getD "" ∧
      (d.apply now (.transition source target label)).graph.connections.values =
        d.graph.connections.values ++ [c] := by
    have added := congrArg (List.map Prod.snd)
      (numbered.entries_connect now source target transitionKind (label.getD "") [])
    rw [List.map_append, kept] at added
    exact ⟨_, rfl, rfl, rfl, rfl, added⟩
  obtain ⟨c, hs, ht, kind, text, all⟩ := values
  have grown := growth_apply now d (.transition source target label)
  have elements : (d.apply now (.transition source target label)).graph.elements = g.elements := by
    rw [apply, Graph.connect]
  have settled : Settled d.groups g := (sound.settled.ensure isSource).ensure isTarget
  refine ⟨settled.of_elements elements, ?_, fun there => ?_, grown.closed sound.closed,
    grown.numbered sound.numbered⟩
  · rw [all, List.forall_mem_append, List.forall_mem_singleton]
    refine ⟨sound.transitions, kind, ?_⟩
    rw [text]
    cases label with
    | none => rfl
    | some s => exact tight s rfl
  · have touch : d.graph.hasElement terminal ∨ terminal = source ∨ terminal = target := by
      have inG : g.hasElement terminal := by
        rw [Graph.hasElement, ← elements]
        exact there
      rw [hasElement_ensure_iff, hasElement_ensure_iff, or_assoc] at inG
      exact inG
    rw [all]
    rcases touch with before | own | own
    · obtain ⟨x, hx, touches⟩ := sound.touched before
      exact ⟨x, List.mem_append_left _ hx, touches⟩
    · exact ⟨c, by simp, by simp [Connection.touches, hs, ← own]⟩
    · exact ⟨c, by simp, by simp [Connection.touches, ht, ← own]⟩

theorem sound_apply {d : Draft} (sound : Sound d) {s : Statement} (said : s.IsSound) :
    Sound (d.apply now s) := by
  cases s with
  | declare id label pseudo opensBlock => exact sound_declare sound said label pseudo opensBlock
  | close =>
    exact sound.of_named (growth_apply now d .close) ⟨sound.settled.planted, sound.settled.states,
      sound.settled.unlisted, fun id isOpen => sound.settled.groups id (List.mem_of_mem_tail isOpen)⟩
      rfl fun there => there
  | transition source target label =>
    obtain ⟨isSource, isTarget, tight⟩ := said
    exact sound_transition sound isSource isTarget tight
  | describe id description =>
    have word : IsWord id := said
    have settled : Settled d.groups ((ensure now d.groups d.graph id).modifyElement id
        (relabel description)) :=
      (sound.settled.ensure (.inl word)).modify (fun _ => rfl) (fun _ => rfl) (fun _ box => box)
        fun e isState own => isState_relabel isState (own ▸ word) description
    exact sound.of_named (growth_apply now d (.describe id description)) settled
      (connections_ensure ..) (hasElement_terminal word)

/-- Whatever its lines say, what is read is sound. -/
theorem sound_foldl_readLine {d : Draft} (sound : Sound d) (lines : List String) :
    Sound (lines.foldl (readLine now) d) := by
  induction lines generalizing d with
  | nil => exact sound
  | cons line lines ih =>
    apply ih
    unfold readLine
    split
    · next s read => exact sound_apply sound (isSound_of_ofText? read)
    · exact sound

end Draft
end DiagramText.States
