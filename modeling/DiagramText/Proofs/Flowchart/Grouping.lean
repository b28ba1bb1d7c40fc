import DiagramText.Proofs.Containment
import DiagramText.Proofs.Flowchart.Lasting
import DiagramText.Proofs.Flowchart.Soundness

/-! Subgraphs in what is read. A statement lists what it brings in with the innermost open group, and no
later statement takes anything off a list or changes what an element is. So the group that a line opens
has all that came in while it was innermost. It is a container only if no node had its id before: the
element that is there is taken as it is. -/
namespace DiagramText.Flowchart

/-! ### Statements -/

/-- What some statements draw. -/
def drafted (now : Instant) (statements : List Statement) : Draft := statements.foldl (Draft.apply now) .empty

/-- The ids that a statement mentions in its place. A style line mentions none: it looks for what is there. -/
def Statement.mentions (d : Draft) : Statement → List String
  | .node ref => [ref.id]
  | .chain head links => head.id :: links.map (·.target.id)
  | .subgraph id _ => [d.groupName id]
  | .close | .style _ _ | .direction _ => []

/-! ### What stays -/

/-- Every element stays what it is, and its list of children only grows. -/
def Retains (g h : Graph) : Prop :=
  ∀ id e, g.element? id = some e → ∃ x, h.element? id = some x ∧ x.kind = e.kind ∧
    e.listed Element.childrenKey <+: x.listed Element.childrenKey

theorem describe_kind (ref : NodeRef) (e : Element) : (Draft.describe ref e).kind = e.kind := by
  unfold Draft.describe
  cases ref.body <;> cases ref.styleClass <;> rfl

theorem setStyles_kind (declarations : List (String × String)) (e : Element) :
    (Draft.setStyles declarations e).kind = e.kind := by
  unfold Draft.setStyles
  induction declarations generalizing e with
  | nil => rfl
  | cons kv rest ih => exact ih _

/-- Lists grow and styles come, but an element stays what it is. -/
theorem lasting_retained : Lasting fun e x =>
    x.kind = e.kind ∧ e.listed Element.childrenKey <+: x.listed Element.childrenKey where
  refl e := ⟨rfl, List.prefix_refl _⟩
  trans _ _ _ first second := ⟨second.1.trans first.1, first.2.trans second.2⟩
  lists e id := ⟨Element.append_kind, Element.listed_append e .. ▸ List.prefix_append ..⟩
  styles e ds := ⟨setStyles_kind ds e, by rw [Element.listed, Element.listed, Draft.properties_setStyles]⟩

/-- The element under an id lists another. -/
def HasListed (g : Graph) (group id : String) : Prop :=
  ∃ e, g.element? group = some e ∧ id ∈ e.listed Element.childrenKey

namespace Retains

variable {g h k : Graph}

theorem refl (g : Graph) : Retains g g := Graph.Lasts.refl lasting_retained.refl g

theorem trans (first : Retains g h) (second : Retains h k) : Retains g k :=
  Graph.Lasts.trans lasting_retained.trans first second

theorem hasListed (retains : Retains g h) {group id : String} (listed : HasListed g group id) :
    HasListed h group id := by
  obtain ⟨e, found, child⟩ := listed
  obtain ⟨x, there, -, longer⟩ := retains group e found
  exact ⟨x, there, longer.subset child⟩

end Retains

namespace Draft

variable {now : Instant} {d : Draft} {group id : String}

theorem retains_declare (now : Instant) (d : Draft) (ref : NodeRef) : Retains d.graph (d.declare now ref).graph :=
  lasting_retained.declare now d fun e => ⟨describe_kind ref e, listed_describe ref e ▸ List.prefix_refl _⟩

theorem retains_addLinks (now : Instant) (d : Draft) (source : String) (links : List Link) :
    Retains d.graph (addLinks now d source links).graph :=
  lasting_retained.addLinks now d source fun l _ e =>
    ⟨describe_kind l.target e, listed_describe l.target e ▸ List.prefix_refl _⟩

theorem retains_apply (now : Instant) (d : Draft) (s : Statement) : Retains d.graph (d.apply now s).graph := by
  cases s with
  | node ref => exact retains_declare now d ref
  | chain head links => exact (retains_declare now d head).trans (retains_addLinks now _ head.id links)
  | subgraph id label => exact lasting_retained.openGroup now d id label
  | close => exact .refl _
  | style ids declarations => exact lasting_retained.restyle d.graph ids declarations
  | direction => exact .refl _

theorem retains_foldl (now : Instant) (d : Draft) (statements : List Statement) :
    Retains d.graph (statements.foldl (apply now) d).graph := by
  induction statements generalizing d with
  | nil => exact .refl _
  | cons s statements ih => exact (retains_apply now d s).trans (ih _)

theorem groups_declare (now : Instant) (d : Draft) (ref : NodeRef) : (d.declare now ref).groups = d.groups := by
  unfold declare
  dsimp only
  split
  · rfl
  · exact enlist_groups ..

/-! ### What comes in -/

theorem mem_keys_declare {ref : NodeRef} :
    id ∈ (d.declare now ref).graph.elements.keys ↔ id ∈ d.graph.elements.keys ∨ id = ref.id := by
  by_cases there : d.graph.hasElement ref.id
  · rw [declare_of_hasElement there, Graph.keys_modifyElement]
    rw [Graph.hasElement_iff] at there
    exact ⟨.inl, fun known => known.elim (fun h => h) fun same => same ▸ there⟩
  · rw [Graph.hasElement_iff] at there
    rw [declare_of_fresh there, keys_place there, List.mem_append, List.mem_singleton]

theorem mem_keys_addLinks {source : String} {links : List Link} :
    id ∈ (addLinks now d source links).graph.elements.keys ↔
      id ∈ d.graph.elements.keys ∨ id ∈ links.map (·.target.id) := by
  induction links generalizing d source with
  | nil => simp [addLinks]
  | cons l links ih =>
    rw [addLinks, ih, List.map_cons, List.mem_cons, ← or_assoc]
    exact or_congr_left mem_keys_declare

theorem mem_keys_openGroup {name label : String} :
    id ∈ (d.openGroup now name label).graph.elements.keys ↔ id ∈ d.graph.elements.keys ∨ id = d.groupName name := by
  rw [openGroup_eq]
  by_cases there : d.graph.hasElement (d.groupName name)
  · rw [if_pos there]
    rw [Graph.hasElement_iff] at there
    exact ⟨.inl, fun known => known.elim (fun h => h) fun same => same ▸ there⟩
  · rw [if_neg there]
    rw [Graph.hasElement_iff] at there
    dsimp only
    rw [keys_place there, List.mem_append, List.mem_singleton]

theorem keys_restyle (g : Graph) (ids : List String) (declarations : List (String × String)) :
    (ids.foldl (fun g id => g.modifyElement id (setStyles declarations)) g).elements.keys = g.elements.keys := by
  induction ids generalizing g with
  | nil => rfl
  | cons id ids ih => rw [List.foldl_cons, ih, Graph.keys_modifyElement]

/-- A statement brings in what it mentions. -/
theorem mem_keys_apply {s : Statement} : id ∈ (d.apply now s).graph.elements.keys ↔
    id ∈ d.graph.elements.keys ∨ id ∈ s.mentions d := by
  cases s with
  | node ref =>
    rw [Statement.mentions, List.mem_singleton]
    exact mem_keys_declare
  | chain head links =>
    rw [apply, mem_keys_addLinks, mem_keys_declare, Statement.mentions, List.mem_cons, or_assoc]
  | subgraph name label =>
    rw [Statement.mentions, List.mem_singleton]
    exact mem_keys_openGroup
  | style ids declarations =>
    rw [apply, keys_restyle, Statement.mentions]
    simp
  | close => simp [apply, Statement.mentions]
  | direction => simp [apply, Statement.mentions]

/-- What a group is when it is opened: a new container, or the element that has the id. -/
theorem exists_opened (now : Instant) (d : Draft) (id label : String) :
    ∃ e, (d.openGroup now id label).graph.element? (d.groupName id) = some e ∧
      (e.kind = .container ↔ ∀ x, d.graph.element? (d.groupName id) = some x → x.kind = .container) := by
  rw [openGroup_eq]
  cases found : d.graph.element? (d.groupName id) with
  | some x =>
    rw [if_pos (Graph.hasElement_iff.2 (Table.mem_keys_of_get? found))]
    exact ⟨x, found, by simp⟩
  | none =>
    rw [if_neg (mt Graph.hasElement_iff.1 (Table.get?_eq_none_iff.1 found))]
    let made := newGroup now (d.groupName id) label
    have placed : (d.graph.withElement (d.groupName id) made).element? (d.groupName id) = some made := by
      rw [Graph.element?, Graph.withElement, Table.get?_insert, if_pos rfl]
    obtain ⟨e, there, kind, -⟩ := lasting_retained.enlist ⟨_, d.groups⟩ (d.groupName id) _ made placed
    have box : made.kind = .container := rfl
    exact ⟨e, there, by simp [kind, box]⟩

/-! ### What is listed -/

/-- What is placed while a group is innermost is listed in it. -/
theorem hasListed_place (top : d.groups.head? = some group) (there : group ∈ d.graph.elements.keys)
    (fresh : id ∉ d.graph.elements.keys) (e : Element) : HasListed (d.place id e).graph group id := by
  obtain ⟨g, groups⟩ := d
  obtain ⟨rest, rfl⟩ := List.head?_eq_some_iff.1 top
  have other : group ≠ id := fun same => fresh (same ▸ there)
  obtain ⟨box, found⟩ := Option.isSome_iff_exists.1 (Table.contains_iff.2 there)
  refine ⟨box.append Element.childrenKey (.str id), ?_, ?_⟩
  · show ((g.elements.insert id e).modify group _).get? group = _
    rw [Table.get?_modify, if_pos rfl, Table.get?_insert, if_neg other, found, Option.map_some]
  · rw [Element.listed_append, List.mem_append, List.mem_singleton]
    exact .inr rfl

/-- A group has an id listed, if there is anything under the id. -/
def Accounts (g : Graph) (group id : String) : Prop := id ∈ g.elements.keys → HasListed g group id

/-- What is new has to be listed; what was listed stays so. -/
theorem Accounts.trans {g h : Graph} (before : Accounts g group id) (retains : Retains g h)
    (new : id ∉ g.elements.keys → id ∈ h.elements.keys → HasListed h group id) : Accounts h group id := by
  intro after
  by_cases old : id ∈ g.elements.keys
  · exact retains.hasListed (before old)
  · exact new old after

variable (top : d.groups.head? = some group) (there : group ∈ d.graph.elements.keys)
include top there

theorem accounts_declare (ref : NodeRef) (before : Accounts d.graph group id) :
    Accounts (d.declare now ref).graph group id := by
  refine before.trans (retains_declare now d ref) fun fresh after => ?_
  obtain rfl := (mem_keys_declare.1 after).resolve_left fresh
  rw [declare_of_fresh fresh]
  exact hasListed_place top there fresh _

theorem accounts_addLinks (source : String) (links : List Link) (before : Accounts d.graph group id) :
    Accounts (addLinks now d source links).graph group id := by
  induction links generalizing d source with
  | nil => exact before
  | cons l links ih =>
    have declared : Accounts (d.declare now l.target).graph group id := accounts_declare top there l.target before
    have top : (d.declare now l.target).groups.head? = some group := by rwa [groups_declare]
    have there : group ∈ (d.declare now l.target).graph.elements.keys := mem_keys_declare.2 (.inl there)
    let linked := (d.declare now l.target).graph.connect now source l.target.id l.arrow.key (l.label.getD "")
    exact ih (d := ⟨linked, (d.declare now l.target).groups⟩) top there l.target.id declared

theorem accounts_openGroup (name label : String) (before : Accounts d.graph group id) :
    Accounts (d.openGroup now name label).graph group id := by
  refine before.trans (lasting_retained.openGroup now d name label) fun fresh after => ?_
  obtain rfl := (mem_keys_openGroup.1 after).resolve_left fresh
  rw [openGroup_eq, if_neg (mt Graph.hasElement_iff.1 fresh)]
  exact hasListed_place top there fresh _

theorem accounts_apply (s : Statement) (before : Accounts d.graph group id) :
    Accounts (d.apply now s).graph group id := by
  cases s with
  | node ref => exact accounts_declare top there ref before
  | chain head links =>
    exact accounts_addLinks ((groups_declare now d head).symm ▸ top) (mem_keys_declare.2 (.inl there)) head.id links
      (accounts_declare top there head before)
  | subgraph name label => exact accounts_openGroup top there name label before
  | close => exact before
  | style ids declarations =>
    refine before.trans (lasting_retained.restyle d.graph ids declarations) fun fresh after => ?_
    exact absurd ((mem_keys_apply.1 after).resolve_left fresh) List.not_mem_nil
  | direction => exact before

end Draft

/-! ### Runs -/

variable {now : Instant}

theorem read_eq_drafted (now : Instant) (lines : List String) :
    read now lines = (drafted now (statementsOf lines)).graph := by rw [read, Draft.foldl_readLine, drafted]

theorem drafted_concat (before after : List Statement) (s : Statement) :
    drafted now (before ++ s :: after) = after.foldl (Draft.apply now) ((drafted now before).apply now s) := by
  rw [drafted, List.foldl_append, List.foldl_cons, drafted]

theorem sown_drafted (now : Instant) (statements : List Statement) : (drafted now statements).Sown :=
  Draft.sown_empty.foldl_apply statements

/-- What came in while a group was innermost stays listed in it. -/
theorem hasListed_drafted {before after : List Statement} {s : Statement} {group x : String}
    (innermost : (drafted now before).groups.head? = some group)
    (mentioned : x ∈ s.mentions (drafted now before)) (new : ¬ (drafted now before).graph.hasElement x) :
    HasListed (drafted now (before ++ s :: after)).graph group x := by
  have there : group ∈ (drafted now before).graph.elements.keys :=
    (sown_drafted now before).groups group (List.mem_of_mem_head? innermost)
  have fresh : Draft.Accounts (drafted now before).graph group x :=
    fun known => absurd (Graph.hasElement_iff.2 known) new
  rw [drafted_concat]
  exact (Draft.retains_foldl now _ after).hasListed
    (Draft.accounts_apply innermost there s fresh (Draft.mem_keys_apply.2 (.inr mentioned)))

/-- A line that opens a subgraph makes its group the innermost one. In the end the element under its id is a
container, if and only if there was none before or that was one, and whatever was first mentioned while the
group was innermost is listed among its children. -/
theorem opened_group_read (now : Instant) {lines : List String} {before after : List Statement} {id label : String}
    (said : statementsOf lines = before ++ .subgraph id label :: after) :
    let d := drafted now before
    let group := d.groupName id
    (d.apply now (.subgraph id label)).groups = group :: d.groups ∧
      ∃ e, (read now lines).element? group = some e ∧
        (e.kind = .container ↔ ∀ x, d.graph.element? group = some x → x.kind = .container) ∧
        ∀ earlier s later, statementsOf lines = earlier ++ s :: later →
          (drafted now earlier).groups.head? = some group →
            ∀ x ∈ s.mentions (drafted now earlier), ¬ (drafted now earlier).graph.hasElement x →
              x ∈ e.listed Element.childrenKey := by
  intro d group
  obtain ⟨opened, found, kind⟩ := Draft.exists_opened now d id label
  obtain ⟨e, there, same, -⟩ := Draft.retains_foldl now (d.apply now (.subgraph id label)) after group opened found
  rw [← drafted_concat, ← said, ← read_eq_drafted] at there
  refine ⟨by rw [Draft.apply, Draft.openGroup_eq], e, there, same ▸ kind, ?_⟩
  intro earlier s later split innermost x mentioned new
  obtain ⟨box, known, listed⟩ := hasListed_drafted innermost mentioned new
  rw [← split, ← read_eq_drafted, there] at known
  exact Option.some.inj known ▸ listed

/-- A titled group with a bare one inside. -/
def groupedLines : List String := ["x", "subgraph all [Everything]", "x --> A; B", "subgraph", "C", "end", "D", "end"]

/-- What they say before the bare group is opened. -/
def beforeBare : List Statement :=
  [.node ⟨"x", none, none⟩, .subgraph "all" "Everything",
    .chain ⟨"x", none, none⟩ [⟨.plain, none, ⟨"A", none, none⟩⟩], .node ⟨"B", none, none⟩]

/-- What they say after that. -/
def afterBare : List Statement := [.node ⟨"C", none, none⟩, .close, .node ⟨"D", none, none⟩, .close]

theorem opened_group_read_bare : statementsOf groupedLines = beforeBare ++ .subgraph "" "" :: afterBare ∧
    ∃ e, (read .epoch groupedLines).element? "subgraph_5" = some e ∧ e.kind = .container ∧
      "C" ∈ e.listed Element.childrenKey := by
  have said : statementsOf groupedLines = beforeBare ++ .subgraph "" "" :: afterBare := by decide +kernel
  have name : (drafted .epoch beforeBare).groupName "" = "subgraph_5" := by decide +kernel
  have fresh : (drafted .epoch beforeBare).graph.element? "subgraph_5" = none := by decide +kernel
  obtain ⟨-, e, there, kind, lists⟩ := opened_group_read .epoch said
  rw [name] at there kind lists
  refine ⟨said, e, there, kind.2 fun x found => ?_, ?_⟩
  · rw [fresh] at found
    cases found
  · exact lists (beforeBare ++ [.subgraph "" ""]) (.node ⟨"C", none, none⟩) afterBare.tail (by decide +kernel)
      (by decide +kernel) "C" (by decide) (by decide +kernel)

/-- A node before the line that opens a group of its id. -/
def takenLines : List String := ["A", "subgraph A", "B", "end"]

/-- What the group lists is listed by the node. -/
theorem opened_node_read : statementsOf takenLines = [.node ⟨"A", none, none⟩] ++
      .subgraph "A" "A" :: [.node ⟨"B", none, none⟩, .close] ∧
    (drafted .epoch [.node ⟨"A", none, none⟩]).groupName "A" = "A" ∧
    ((read .epoch takenLines).element? "A").map (fun e => (e.kind, e.listed Element.childrenKey)) =
      some (.node, ["B"]) := by
  decide +kernel

end DiagramText.Flowchart
